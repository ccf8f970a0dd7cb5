import Gamnet.Tcp.Invariant
import Gamnet.Tcp.Manager
import Mathlib.Logic.Relation

/-!
# What an act does to the ties between links and sessions

Most of what happens leaves the attachments, the keys, the tokens and the map of
the sessions alone (`Still`), apart from links that are closed and detached
(`Loosens`). A delivery does more in two cases only: a Connect_Req registers its
session, and a Reconnect_Req with a valid key and token takes another session
over. `demand` says which case a frame is, and `deliver_demand` that nothing
else happens.
-/

namespace Gamnet
namespace Tcp

section StillChanges

variable {A : Type}

/-- Nothing is attached or detached, no token is issued, and the map of the
sessions stays. Links may be closed. -/
structure Still (w w' : World A) : Prop where
  session : ∀ l, (w'.links l).session = (w.links l).session
  closures : ∀ l, (w'.links l).closures = (w.links l).closures
  busy : ∀ l, (w'.links l).busy = (w.links l).busy
  isOpen : ∀ l, (w'.links l).isOpen = true → (w.links l).isOpen = true
  link : ∀ s, (w'.sessions s).link = (w.sessions s).link
  sessionKey : ∀ s, (w'.sessions s).sessionKey = (w.sessions s).sessionKey
  sessionToken : ∀ s, (w'.sessions s).sessionToken = (w.sessions s).sessionToken
  registry : w'.registry = w.registry
  tokens : w'.tokens = w.tokens

namespace Still

theorem refl
    (w : World A) :
    Still w w :=
  ⟨fun _ => rfl, fun _ => rfl, fun _ => rfl, fun _ h => h, fun _ => rfl, fun _ => rfl,
    fun _ => rfl, rfl, rfl⟩

theorem trans
    {w₁ w₂ w₃ : World A}
    (h₁ : Still w₁ w₂)
    (h₂ : Still w₂ w₃) :
    Still w₁ w₃ where
  session := fun l => (h₂.session l).trans (h₁.session l)
  closures := fun l => (h₂.closures l).trans (h₁.closures l)
  busy := fun l => (h₂.busy l).trans (h₁.busy l)
  isOpen := fun l h => h₁.isOpen l (h₂.isOpen l h)
  link := fun s => (h₂.link s).trans (h₁.link s)
  sessionKey := fun s => (h₂.sessionKey s).trans (h₁.sessionKey s)
  sessionToken := fun s => (h₂.sessionToken s).trans (h₁.sessionToken s)
  registry := h₂.registry.trans h₁.registry
  tokens := h₂.tokens.trans h₁.tokens

/-- Changes to packets, to the trace and to the application only. -/
theorem of_eq
    {w w' : World A}
    (hlinks : w'.links = w.links)
    (hsessions : w'.sessions = w.sessions)
    (hregistry : w'.registry = w.registry)
    (htokens : w'.tokens = w.tokens) :
    Still w w' where
  session := fun l => by rw [hlinks]
  closures := fun l => by rw [hlinks]
  busy := fun l => by rw [hlinks]
  isOpen := fun l h => by rwa [hlinks] at h
  link := fun s => by rw [hsessions]
  sessionKey := fun s => by rw [hsessions]
  sessionToken := fun s => by rw [hsessions]
  registry := hregistry
  tokens := htokens

end Still

theorem still_setPacket
    (w : World A) (p : PacketId) (x : Packet) :
    Still w (w.setPacket p x) :=
  Still.of_eq rfl rfl rfl rfl

/-- A session keeps its link, its key and its token. -/
theorem still_setSession
    (w : World A) (s : SessionId) (x : Session)
    (hlink : x.link = (w.sessions s).link)
    (hkey : x.sessionKey = (w.sessions s).sessionKey)
    (htoken : x.sessionToken = (w.sessions s).sessionToken) :
    Still w (w.setSession s x) := by
  refine ⟨fun _ => rfl, fun _ => rfl, fun _ => rfl, fun _ h => h, ?_, ?_, ?_, rfl, rfl⟩ <;>
    intro t <;>
    rw [World.setSession_sessions] <;>
    by_cases ht : t = s
  · rw [ht, Function.update_self, hlink]
  · rw [Function.update_of_ne ht]
  · rw [ht, Function.update_self, hkey]
  · rw [Function.update_of_ne ht]
  · rw [ht, Function.update_self, htoken]
  · rw [Function.update_of_ne ht]

/-- A link is closed. -/
theorem still_close
    (w : World A) (l : LinkId) :
    Still w ((w.setLink l { w.links l with isOpen := false }).log (.close l)) := by
  refine ⟨?_, ?_, ?_, ?_, fun _ => rfl, fun _ => rfl, fun _ => rfl, rfl, rfl⟩ <;>
    intro k <;>
    rw [World.log_links, World.setLink_links] <;>
    by_cases hk : k = l
  · rw [hk, Function.update_self]
  · rw [Function.update_of_ne hk]
  · rw [hk, Function.update_self]
  · rw [Function.update_of_ne hk]
  · rw [hk, Function.update_self]
  · rw [Function.update_of_ne hk]
  · rw [hk, Function.update_self]
    simp
  · rw [Function.update_of_ne hk]
    exact id

variable (env : Env A)

theorem still_createPacket
    {w w' : World A} {p : PacketId}
    (hcreate : createPacket env w = some (p, w')) :
    Still w w' := by
  obtain ⟨rfl, data, rfl⟩ := createPacket_eq_some env hcreate
  exact Still.of_eq rfl rfl rfl rfl

theorem still_linkAnswer
    (w : World A) (l : LinkId) (m : Message) :
    Still w (linkAnswer env w l m) := by
  unfold linkAnswer
  cases hcreate : createPacket env w with
  | none =>
      exact Still.refl w
  | some r =>
      exact (still_createPacket env hcreate).trans (Still.of_eq rfl rfl rfl rfl)

theorem still_sessionAnswer
    (w : World A) (s : SessionId) (m : Message) :
    Still w (sessionAnswer env w s m) := by
  unfold sessionAnswer
  cases (w.sessions s).link with
  | none =>
      cases hcreate : createPacket env w with
      | none =>
          exact Still.refl w
      | some r =>
          exact still_createPacket env hcreate
  | some l =>
      exact still_linkAnswer env w l m

theorem still_send
    (cur : LinkId) (w : World A) (s : SessionId) (buf : List UInt8) :
    Still w (command env cur w (.send s buf)) := by
  simp only [command]
  split
  · exact Still.refl w
  · exact Still.of_eq rfl rfl rfl rfl

theorem still_recvHeartBeatReq
    (w : World A) (s : SessionId) :
    Still w (recvHeartBeatReq env w s).world := by
  simp only [recvHeartBeatReq]
  split
  · exact Still.refl w
  · exact still_sessionAnswer env w s _

theorem still_storeSeq
    (w : World A) (s : SessionId) (n : Nat) :
    Still w (storeSeq env w s n) := by
  simp only [storeSeq]
  cases env.kind with
  | tcp =>
      exact still_setSession w s _ rfl rfl rfl
  | router =>
      exact Still.refl w

theorem still_touch
    (w : World A) (s : SessionId) :
    Still w (touch env w s) := by
  simp only [touch]
  cases env.kind with
  | tcp =>
      exact still_setSession w s _ rfl rfl rfl
  | router =>
      exact Still.refl w

end StillChanges

section LooseChanges

variable {A : Type}

/-- A still change, or a link is detached that is open or that a session has. -/
def LooseStep (cur : LinkId) (w w' : World A) : Prop :=
  Still w w' ∨
    ∃ l, ((w.links l).isOpen = true ∨ ∃ s, (w.sessions s).link = some l) ∧
      w' = attachSession cur w l none

/-- Links are closed and detached, and nothing else. -/
abbrev Loosens (cur : LinkId) : World A → World A → Prop :=
  Relation.ReflTransGen (LooseStep cur)

theorem Still.loosens
    {w w' : World A}
    (h : Still w w')
    (cur : LinkId) :
    Loosens cur w w' :=
  Relation.ReflTransGen.single (Or.inl h)

/-- What still changes and detaching closures keep is kept. -/
theorem Loosens.rule
    {cur : LinkId} {w w' : World A} {P : World A → Prop}
    (hstill : ∀ w w', Still w w' → P w → P w')
    (hdetach : ∀ w l,
      ((w.links l).isOpen = true ∨ ∃ s, (w.sessions s).link = some l) →
        P w → P (attachSession cur w l none))
    (hloosens : Loosens cur w w')
    (hw : P w) :
    P w' := by
  induction hloosens with
  | refl =>
      exact hw
  | tail _ hstep ih =>
      rcases hstep with hstep | ⟨l, hguard, rfl⟩
      · exact hstill _ _ hstep ih
      · exact hdetach _ l hguard ih

theorem loosens_app
    (cur : LinkId) (w : World A) (app : A) :
    Loosens cur w { w with app := app } :=
  Relation.ReflTransGen.single (Or.inl (Still.of_eq rfl rfl rfl rfl))

theorem loosens_detach
    {cur : LinkId} {w : World A} {l : LinkId}
    (h : (w.links l).isOpen = true ∨ ∃ s, (w.sessions s).link = some l) :
    Loosens cur w (attachSession cur w l none) :=
  Relation.ReflTransGen.single (Or.inr ⟨l, h, rfl⟩)

variable (env : Env A)

theorem loosens_onError
    (htcp : env.kind = .tcp)
    (cur : LinkId) (w : World A) (l : LinkId) :
    Loosens cur w (onError env cur w l) := by
  simp only [onError]
  split
  · exact Relation.ReflTransGen.refl
  · rename_i hopen
    refine Relation.ReflTransGen.trans ?_ ((still_close _ l).loosens cur)
    cases hsession : (w.links l).session with
    | none =>
        simp only [onClose, hsession]
        exact Relation.ReflTransGen.refl
    | some s =>
        rcases hclose : env.onClose w.app s with ⟨app, throws⟩
        have happ := loosens_app cur w app
        cases throws with
        | true =>
            simp only [onClose, hsession, hclose]
            exact happ
        | false =>
            simp only [onClose, hsession, hclose, unregister, htcp]
            exact happ.trans (loosens_detach (Or.inl (by simpa using hopen)))

/-- The reaction does not attach or detach by itself. -/
def Reaction.NeverAttaches (r : Reaction A) : Prop :=
  ∀ c ∈ r.commands, ∀ l s, c ≠ .attachSession l s

/-- The application does not call AttachSession. -/
structure Env.NeverAttaches : Prop where
  onAccept : ∀ app s, (env.onAccept app s).NeverAttaches
  function : ∀ msgId u, env.handlers msgId = some (.user u) →
    ∀ w s packet, (u.function w s packet).NeverAttaches

theorem neverAttaches_listen
    (token : Nat → Nat → String) (parse : List UInt8 → ReconnectReq)
    {user : Nat → Option (UserHandler A)}
    (huser : ∀ msgId u, user msgId = some u →
      ∀ w s packet, (u.function w s packet).NeverAttaches) :
    (Env.listen token parse user).NeverAttaches := by
  refine ⟨?_, ?_⟩
  · intro app s c hc
    cases hc
  · intro msgId u hu
    simp only [Env.listen, listenHandlers] at hu
    split at hu
    · cases hu
    · split at hu
      · cases hu
      · split at hu
        · cases hu
        · rw [Option.map_eq_some_iff] at hu
          obtain ⟨u', hregistered, heq⟩ := hu
          cases heq
          exact huser msgId u hregistered

theorem loosens_runCommands
    (htcp : env.kind = .tcp)
    (cur : LinkId) (w : World A) {cs : List Command}
    (hcs : ∀ c ∈ cs, ∀ l s, c ≠ .attachSession l s) :
    Loosens cur w (runCommands env cur w cs) := by
  simp only [runCommands]
  induction cs generalizing w with
  | nil =>
      exact Relation.ReflTransGen.refl
  | cons c cs ih =>
      rw [List.foldl_cons]
      refine Relation.ReflTransGen.trans ?_
        (ih _ (fun c' hc' => hcs c' (List.mem_cons_of_mem _ hc')))
      cases c with
      | onError l =>
          exact loosens_onError env htcp cur w l
      | attachSession l s =>
          exact absurd rfl (hcs _ List.mem_cons_self l s)
      | send s buf =>
          exact (still_send env cur w s buf).loosens cur

theorem loosens_react
    (htcp : env.kind = .tcp)
    (cur : LinkId) (w : World A) {r : Reaction A}
    (hr : r.NeverAttaches) :
    Loosens cur w (react env cur w r).world := by
  have hrun : Loosens cur w (runCommands env cur { w with app := r.app } r.commands) :=
    (loosens_app cur w r.app).trans (loosens_runCommands env htcp cur _ hr)
  simp only [react]
  split
  · exact hrun
  · exact hrun

theorem loosens_rejectReconnect
    (cur : LinkId) {w : World A} {s : SessionId} {l : LinkId}
    (hlink : (w.sessions s).link = some l)
    (code : ErrorCode) :
    Loosens cur w (rejectReconnect env cur w s l code) :=
  (loosens_detach (Or.inr ⟨s, hlink⟩)).trans ((still_linkAnswer env _ l _).loosens cur)

theorem loosens_leaveLink
    (cur : LinkId) (w : World A) (other : SessionId) :
    Loosens cur w (leaveLink cur w other) := by
  cases hlink : (w.sessions other).link with
  | none =>
      simp only [leaveLink, hlink]
      exact Relation.ReflTransGen.refl
  | some old =>
      simp only [leaveLink, hlink]
      exact loosens_detach (Or.inr ⟨other, hlink⟩)

theorem loosens_noHandler
    (htcp : env.kind = .tcp)
    (cur : LinkId) (w : World A) (s : SessionId) :
    Loosens cur w (noHandler env cur w s).world := by
  cases hlink : (w.sessions s).link with
  | none =>
      simp only [noHandler, hlink]
      exact Relation.ReflTransGen.refl
  | some l =>
      simp only [noHandler, hlink]
      exact loosens_onError env htcp cur w l

end LooseChanges

section AttachedClosures

variable {A : Type}

theorem links_attachClosure
    (w : World A) (l : LinkId) (session : Option SessionId) :
    (attachClosure w l session).links =
      Function.update w.links l { w.links l with session := session } := by
  have hrelease : (releaseSession w l).links = w.links := by
    simp only [releaseSession]
    split
    · rfl
    · rfl
  cases session with
  | none =>
      simp only [attachClosure, World.setLink_links, hrelease]
  | some s =>
      simp only [attachClosure, World.setSession_links, World.setLink_links, hrelease]

/-- The link of every session behind an AttachSession closure. -/
theorem link_attachClosure
    (w : World A) (l : LinkId) (session : Option SessionId) (t : SessionId) :
    ((attachClosure w l session).sessions t).link =
      if session = some t then some l
      else if (w.links l).session = some t then none
      else (w.sessions t).link := by
  have hrelease : ((releaseSession w l).sessions t).link =
      if (w.links l).session = some t then none else (w.sessions t).link := by
    cases hold : (w.links l).session with
    | none =>
        simp only [releaseSession, hold, reduceCtorEq, if_false]
    | some old =>
        simp only [releaseSession, hold, World.setSession_sessions, Option.some.injEq]
        by_cases ht : old = t
        · subst ht
          simp
        · rw [Function.update_of_ne (Ne.symm ht), if_neg ht]
  cases session with
  | none =>
      simp only [attachClosure, World.setLink_sessions, hrelease, reduceCtorEq, if_false]
  | some s =>
      simp only [attachClosure, World.setSession_sessions, World.setLink_sessions,
        Option.some.injEq]
      by_cases ht : s = t
      · subst ht
        simp
      · rw [Function.update_of_ne (Ne.symm ht), if_neg ht, hrelease]

/-- What no AttachSession closure changes. -/
structure SameSessions (w w' : World A) : Prop where
  sessionKey : ∀ s, (w'.sessions s).sessionKey = (w.sessions s).sessionKey
  sessionToken : ∀ s, (w'.sessions s).sessionToken = (w.sessions s).sessionToken
  recvPacket : ∀ s, (w'.sessions s).recvPacket = (w.sessions s).recvPacket
  msgSeq : ∀ s, (w'.sessions s).msgSeq = (w.sessions s).msgSeq
  registry : w'.registry = w.registry
  tokens : w'.tokens = w.tokens

theorem SameSessions.refl
    (w : World A) :
    SameSessions w w :=
  ⟨fun _ => rfl, fun _ => rfl, fun _ => rfl, fun _ => rfl, rfl, rfl⟩

theorem SameSessions.trans
    {w₁ w₂ w₃ : World A}
    (h₁ : SameSessions w₁ w₂)
    (h₂ : SameSessions w₂ w₃) :
    SameSessions w₁ w₃ where
  sessionKey := fun s => (h₂.sessionKey s).trans (h₁.sessionKey s)
  sessionToken := fun s => (h₂.sessionToken s).trans (h₁.sessionToken s)
  recvPacket := fun s => (h₂.recvPacket s).trans (h₁.recvPacket s)
  msgSeq := fun s => (h₂.msgSeq s).trans (h₁.msgSeq s)
  registry := h₂.registry.trans h₁.registry
  tokens := h₂.tokens.trans h₁.tokens

theorem sameSessions_setLink
    (w : World A) (s : SessionId) (link : Option LinkId) :
    SameSessions w (w.setSession s { w.sessions s with link := link }) := by
  refine ⟨?_, ?_, ?_, ?_, rfl, rfl⟩ <;>
    intro t <;>
    rw [World.setSession_sessions] <;>
    by_cases ht : t = s
  · rw [ht, Function.update_self]
  · rw [Function.update_of_ne ht]
  · rw [ht, Function.update_self]
  · rw [Function.update_of_ne ht]
  · rw [ht, Function.update_self]
  · rw [Function.update_of_ne ht]
  · rw [ht, Function.update_self]
  · rw [Function.update_of_ne ht]

theorem sameSessions_attachClosure
    (w : World A) (l : LinkId) (session : Option SessionId) :
    SameSessions w (attachClosure w l session) := by
  have hrelease : SameSessions w (releaseSession w l) := by
    simp only [releaseSession]
    split
    · exact SameSessions.refl w
    · exact sameSessions_setLink w _ none
  have hset : SameSessions (releaseSession w l)
      ((releaseSession w l).setLink l
        { (releaseSession w l).links l with session := session }) :=
    ⟨fun _ => rfl, fun _ => rfl, fun _ => rfl, fun _ => rfl, rfl, rfl⟩
  cases session with
  | none =>
      exact hrelease.trans hset
  | some s =>
      exact (hrelease.trans hset).trans (sameSessions_setLink _ s (some l))

theorem sameSessions_attachSession
    (cur : LinkId) (w : World A) (l : LinkId) (session : Option SessionId) :
    SameSessions w (attachSession cur w l session) := by
  simp only [attachSession]
  split
  · exact sameSessions_attachClosure w l session
  · exact ⟨fun _ => rfl, fun _ => rfl, fun _ => rfl, fun _ => rfl, rfl, rfl⟩

end AttachedClosures

section Demands

variable {A : Type} (env : Env A)

/-- What a frame asks for, beyond answers. -/
inductive Demand
  | nothing
  | connect
  | takeOver (l : LinkId) (other : SessionId)
deriving DecidableEq

/-- The session that a Reconnect_Req takes over, if it is valid. -/
def takeover (w : World A) (packet : Packet) : Option SessionId :=
  match env.parse (reconnectText packet) with
  | .request key token =>
      match w.registry key with
      | none => none
      | some other =>
          if (w.sessions other).sessionToken ≠ token then none else some other
  | _ => none

/-- What the handler of a frame is asked for. -/
def handlerDemand (h : Handler A) (w : World A) (s : SessionId) (packet : Packet) :
    Demand :=
  match h, (w.sessions s).link with
  | .connectReq, some _ => .connect
  | .reconnectReq, some l =>
      match takeover env w packet with
      | none => .nothing
      | some other => .takeOver l other
  | _, _ => .nothing

/-- What a dispatched frame asks for. -/
def dispatchDemand (w : World A) (s : SessionId) (packet : Packet) : Demand :=
  match env.handlers packet.getID with
  | none => .nothing
  | some h => handlerDemand env h w s packet

/-- What the frame at the front of the packet of a session asks for. -/
def demand (w : World A) (s : SessionId) : Demand :=
  if passes env w s (w.recvPacket s) then dispatchDemand env w s (w.recvPacket s)
  else .nothing

/-- What Recv_Connect_Req does before it answers. -/
def registerSession (w : World A) (s : SessionId) : World A :=
  addSession (renewToken env w s) (w.sessions s).sessionKey s

theorem sessionKey_renewToken
    (w : World A) (s t : SessionId) :
    ((renewToken env w s).sessions t).sessionKey = (w.sessions t).sessionKey := by
  simp only [renewToken, World.setSession_sessions]
  by_cases ht : t = s
  · rw [ht, Function.update_self]
  · rw [Function.update_of_ne ht]

/-- A session is registered unless its key is taken. -/
theorem registry_registerSession
    (w : World A) (s : SessionId) :
    (registerSession env w s).registry =
      Function.update w.registry (w.sessions s).sessionKey
        (some ((w.registry (w.sessions s).sessionKey).getD s)) := by
  cases hkey : w.registry (w.sessions s).sessionKey with
  | none =>
      have hfree : (renewToken env w s).registry (w.sessions s).sessionKey = none := hkey
      simp only [registerSession, addSession, hfree, Option.getD_none]
      rfl
  | some other =>
      have htaken : (renewToken env w s).registry (w.sessions s).sessionKey = some other := hkey
      simp only [registerSession, addSession, htaken, Option.getD_some]
      rw [← hkey, Function.update_eq_self]
      rfl

theorem sessionKey_registerSession
    (w : World A) (s t : SessionId) :
    ((registerSession env w s).sessions t).sessionKey = (w.sessions t).sessionKey := by
  rw [← sessionKey_renewToken env w s t]
  simp only [registerSession, addSession]
  split
  · rfl
  · rw [World.setSession_sessions]
    by_cases ht : t = s
    · rw [ht, Function.update_self]
    · rw [Function.update_of_ne ht]

theorem sessionToken_registerSession
    (w : World A) (s : SessionId) :
    ((registerSession env w s).sessions s).sessionToken =
      env.token w.tokens (w.sessions s).sessionKey := by
  have hrenew : ((renewToken env w s).sessions s).sessionToken =
      env.token w.tokens (w.sessions s).sessionKey := by
    simp [renewToken]
  simp only [registerSession, addSession]
  split
  · exact hrenew
  · rw [World.setSession_sessions, Function.update_self]
    exact hrenew

/-- The other sessions stay. -/
theorem sessions_registerSession
    (w : World A) {s t : SessionId}
    (ht : t ≠ s) :
    (registerSession env w s).sessions t = w.sessions t := by
  have hrenew : (renewToken env w s).sessions t = w.sessions t := by
    simp only [renewToken, World.setSession_sessions, Function.update_of_ne ht]
  simp only [registerSession, addSession]
  split
  · exact hrenew
  · rw [World.setSession_sessions, Function.update_of_ne ht]
    exact hrenew

theorem counters_registerSession
    (w : World A) (s : SessionId) :
    (registerSession env w s).keys = w.keys ∧
      (registerSession env w s).tokens = w.tokens + 1 := by
  simp only [registerSession, addSession]
  split
  · exact ⟨rfl, rfl⟩
  · exact ⟨rfl, rfl⟩

theorem quiet_registerSession
    (w : World A) (s : SessionId) :
    Quiet w (registerSession env w s) :=
  (quiet_renewToken env w s).trans (quiet_addSession _ _ s)

/-- What the demand leads to. -/
def Demand.meet (cur : LinkId) (w : World A) (s : SessionId) : Demand → World A
  | .nothing => w
  | .connect => registerSession env w s
  | .takeOver l other => acceptReconnect env cur w s l other

/-- A valid Reconnect_Req carries the key under which the session is registered, and
its token. -/
theorem takeover_eq_some
    {w : World A} {packet : Packet} {other : SessionId}
    (h : takeover env w packet = some other) :
    ∃ key, env.parse (reconnectText packet) =
        .request key (w.sessions other).sessionToken ∧
      w.registry key = some other := by
  simp only [takeover] at h
  split at h
  · rename_i key token hparse
    split at h
    · cases h
    · rename_i found hkey
      split at h
      · cases h
      · rename_i htoken
        cases h
        exact ⟨key, by rw [hparse, not_not.mp htoken], hkey⟩
  · cases h

theorem demand_eq_connect
    {w : World A} {s : SessionId}
    (h : demand env w s = .connect) :
    ∃ l, (w.sessions s).link = some l := by
  simp only [demand, dispatchDemand] at h
  split at h
  · split at h
    · cases h
    · simp only [handlerDemand] at h
      split at h
      · exact ⟨_, ‹(w.sessions s).link = some _›⟩
      · split at h
        · cases h
        · cases h
      · cases h
  · cases h

theorem demand_eq_takeOver
    {w : World A} {s other : SessionId} {l : LinkId}
    (h : demand env w s = .takeOver l other) :
    env.handlers (w.recvPacket s).getID = some .reconnectReq ∧
      (w.sessions s).link = some l ∧
      takeover env w (w.recvPacket s) = some other := by
  simp only [demand, dispatchDemand] at h
  split at h
  · split at h
    · cases h
    · rename_i handler hhandler
      simp only [handlerDemand] at h
      split at h
      · cases h
      · rename_i l' hlink
        split at h
        · cases h
        · rename_i found htake
          cases h
          exact ⟨hhandler, hlink, htake⟩
      · cases h
  · cases h

/-- A handler meets the demand and answers. -/
theorem runHandler_demand
    (htcp : env.kind = .tcp)
    (hnever : env.NeverAttaches)
    {msgId : Nat} {h : Handler A}
    (hhandler : env.handlers msgId = some h)
    (cur : LinkId) (w : World A) (s : SessionId) (packet : Packet) :
    Loosens cur ((handlerDemand env h w s packet).meet env cur w s)
      (runHandler env cur h w s packet).world := by
  cases h with
  | connectReq =>
      cases hlink : (w.sessions s).link with
      | none =>
          simp only [runHandler, recvConnectReq, handlerDemand, hlink, Demand.meet]
          exact Relation.ReflTransGen.refl
      | some l =>
          have hkey : ((renewToken env w s).sessions s).sessionKey =
              (w.sessions s).sessionKey := by
            simp [renewToken]
          simp only [runHandler, recvConnectReq, handlerDemand, hlink, Demand.meet,
            registerSession, hkey]
          exact ((still_sessionAnswer env _ s _).loosens cur).trans
            (loosens_react env htcp cur _ (hnever.onAccept _ s))
  | reconnectReq =>
      cases hlink : (w.sessions s).link with
      | none =>
          simp only [runHandler, recvReconnectReq, handlerDemand, hlink, Demand.meet]
          exact Relation.ReflTransGen.refl
      | some l =>
          simp only [runHandler, recvReconnectReq, handlerDemand, hlink, takeover]
          cases env.parse (reconnectText packet) with
          | malformed =>
              exact loosens_rejectReconnect env cur hlink _
          | badField =>
              exact Relation.ReflTransGen.refl
          | request key token =>
              simp only
              cases w.registry key with
              | none =>
                  exact loosens_rejectReconnect env cur hlink _
              | some other =>
                  by_cases htoken : (w.sessions other).sessionToken ≠ token
                  · simp only [if_pos htoken]
                    exact loosens_rejectReconnect env cur hlink _
                  · simp only [if_neg htoken]
                    exact Relation.ReflTransGen.refl
  | heartBeatReq =>
      have hdemand : handlerDemand env .heartBeatReq w s packet = .nothing := by
        simp only [handlerDemand]
      rw [hdemand]
      exact (still_recvHeartBeatReq env w s).loosens cur
  | user u =>
      have hdemand : handlerDemand env (.user u) w s packet = .nothing := by
        simp only [handlerDemand]
      rw [hdemand]
      exact loosens_react env htcp cur w (hnever.function msgId u hhandler w s packet)

/-- The dispatcher meets the demand of the frame, if there is a handler. -/
theorem dispatch_demand
    (htcp : env.kind = .tcp)
    (hnever : env.NeverAttaches)
    (cur : LinkId) (w : World A) (s : SessionId) (packet : Packet) :
    ∃ w₁, Still w w₁ ∧
      Loosens cur ((dispatchDemand env w s packet).meet env cur w₁ s)
        (dispatch env cur w s packet).world := by
  have hlogged : Still w (w.log (.dispatch s packet)) := Still.of_eq rfl rfl rfl rfl
  have hnone : Loosens cur w (noHandler env cur (w.log (.dispatch s packet)) s).world :=
    (hlogged.loosens cur).trans (loosens_noHandler env htcp cur _ s)
  cases hhandler : env.handlers packet.getID with
  | none =>
      refine ⟨w, Still.refl w, ?_⟩
      simp only [dispatch, findHandler, dispatchDemand, hhandler, Demand.meet]
      exact hnone
  | some h =>
      cases hinstance : getHandler h (w.log (.dispatch s packet)) s with
      | none =>
          have hdemand : handlerDemand env h w s packet = .nothing := by
            cases h with
            | connectReq =>
                cases hinstance
            | reconnectReq =>
                cases hinstance
            | heartBeatReq =>
                simp only [handlerDemand]
            | user u =>
                simp only [handlerDemand]
          refine ⟨w, Still.refl w, ?_⟩
          simp only [dispatch, findHandler, dispatchDemand, hhandler, hinstance, hdemand,
            Demand.meet]
          exact hnone
      | some app =>
          refine ⟨{ w.log (.dispatch s packet) with app := app }, Still.of_eq rfl rfl rfl rfl, ?_⟩
          simp only [dispatch, findHandler, dispatchDemand, hhandler, hinstance,
            Outcome.caught_world]
          exact runHandler_demand env htcp hnever hhandler cur _ s packet

/-- A delivery meets the demand of the frame. Apart from that it closes and
detaches links. -/
theorem deliver_demand
    (htcp : env.kind = .tcp)
    (hnever : env.NeverAttaches)
    (cur : LinkId) (w : World A) (s : SessionId) :
    ∃ w₁, Still w w₁ ∧
      Loosens cur ((demand env w s).meet env cur w₁ s) (deliver env cur w s).world := by
  have hlogged : Still w (w.log (.examine s (w.recvPacket s))) := Still.of_eq rfl rfl rfl rfl
  by_cases hpasses : passes env w s (w.recvPacket s) = true
  · obtain ⟨w₁, hstill, hloosens⟩ := dispatch_demand env htcp hnever cur
      (w.log (.examine s (w.recvPacket s))) s (w.recvPacket s)
    refine ⟨w₁, hlogged.trans hstill, ?_⟩
    simp only [demand, if_pos hpasses, deliver_of_passes env hpasses]
    exact Outcome.world_bind (R := Loosens cur _)
      (fun w₂ hw₂ => hw₂.trans ((still_storeSeq env w₂ s _).loosens cur)) hloosens
  · refine ⟨w, Still.refl w, ?_⟩
    simp only [demand, if_neg hpasses, deliver_of_not_passes env hpasses, Demand.meet]
    exact hlogged.loosens cur

/-- A valid Reconnect_Req takes the session over and changes nothing else. -/
theorem deliver_takeOver
    (cur : LinkId) {w : World A} {s other : SessionId} {l : LinkId}
    (hdemand : demand env w s = .takeOver l other) :
    ∃ w₁, Still w w₁ ∧
      Still (acceptReconnect env cur w₁ s l other) (deliver env cur w s).world := by
  obtain ⟨hhandler, hlink, htake⟩ := demand_eq_takeOver env hdemand
  obtain ⟨key, hparse, hkey⟩ := takeover_eq_some env htake
  have hpasses : passes env w s (w.recvPacket s) = true := by
    simp only [demand] at hdemand
    split at hdemand
    · assumption
    · cases hdemand
  have hdispatch : ∀ w₁ : World A, w₁.registry = w.registry → w₁.sessions = w.sessions →
      runHandler env cur .reconnectReq w₁ s (w.recvPacket s) =
        .ok (acceptReconnect env cur w₁ s l other) := by
    intro w₁ hregistry hsessions
    simp only [runHandler, recvReconnectReq, hsessions, hregistry, hlink, hparse, hkey,
      ne_eq, not_true_eq_false, if_false]
  refine ⟨(w.log (.examine s (w.recvPacket s))).log (.dispatch s (w.recvPacket s)),
    Still.of_eq rfl rfl rfl rfl, ?_⟩
  rw [deliver_of_passes env hpasses]
  simp only [dispatch, findHandler, hhandler, getHandler]
  show Still _ (((runHandler env cur .reconnectReq ((w.log (.examine s (w.recvPacket s))).log
    (.dispatch s (w.recvPacket s))) s (w.recvPacket s)).caught.bind _).world)
  rw [hdispatch ((w.log (.examine s (w.recvPacket s))).log (.dispatch s (w.recvPacket s)))
    rfl rfl]
  exact still_storeSeq env _ s _

/-- The start of a read. -/
theorem loosens_appendRead
    (htcp : env.kind = .tcp)
    (cur : LinkId) (w : World A) (bytes : List UInt8) :
    Loosens cur w (appendRead env cur w bytes) := by
  simp only [appendRead]
  split
  · exact loosens_onError env htcp cur w cur
  · rename_i s _
    split
    · exact (still_touch env w s).loosens cur
    · exact ((still_touch env w s).trans (still_setPacket _ _ _)).loosens cur

/-- The end of a round. -/
theorem loosens_advanceRead
    (htcp : env.kind = .tcp)
    (cur : LinkId) (w : World A) (s : SessionId) (n : Nat) :
    Loosens cur w (advanceRead env cur w s n) := by
  have hremoved := still_setPacket w (w.sessions s).recvPacket
    ((w.packets (w.sessions s).recvPacket).remove n)
  simp only [advanceRead]
  cases hadvance : advance env cur w s n with
  | inl w' =>
      simp only [advance, htcp] at hadvance
      split at hadvance
      · split at hadvance
        · cases hadvance
        · rename_i q w₁ hcreate
          split at hadvance
          · cases hadvance
          · cases hadvance
            exact (((hremoved.trans (still_createPacket env hcreate)).trans
              (still_setPacket w₁ q _)).trans (still_setSession _ s
                { w₁.sessions s with recvPacket := q } rfl rfl rfl)).loosens cur
      · cases hadvance
        exact hremoved.loosens cur
  | inr r =>
      rw [advance_inr env hadvance]
      exact (hremoved.loosens cur).trans (loosens_onError env htcp cur _ cur)

end Demands

end Tcp
end Gamnet
