import Gamnet.Tcp.Reconnect
import Gamnet.Tcp.Ties

/-!
# Clients that connect

The acts of a read that carries one frame, and what a manager is like behind the
accept and the Connect_Req of a client: the session is registered under a fresh
key with a fresh token, and everything else is as before (`Joined`).
-/

namespace Gamnet
namespace Tcp

section PrivateChanges

variable {A : Type}

/-- Session s changes, but not its link, its key and its token. -/
structure Private (s : SessionId) (w w' : World A) : Prop where
  links : w'.links = w.links
  others : ∀ t, t ≠ s → w'.sessions t = w.sessions t
  link : (w'.sessions s).link = (w.sessions s).link
  sessionKey : (w'.sessions s).sessionKey = (w.sessions s).sessionKey
  sessionToken : (w'.sessions s).sessionToken = (w.sessions s).sessionToken
  registry : w'.registry = w.registry
  keys : w'.keys = w.keys
  tokens : w'.tokens = w.tokens

namespace Private

variable {s : SessionId}

theorem refl
    (w : World A) :
    Private s w w :=
  ⟨rfl, fun _ _ => rfl, rfl, rfl, rfl, rfl, rfl, rfl⟩

theorem trans
    {w₁ w₂ w₃ : World A}
    (h₁ : Private s w₁ w₂)
    (h₂ : Private s w₂ w₃) :
    Private s w₁ w₃ where
  links := h₂.links.trans h₁.links
  others := fun t ht => (h₂.others t ht).trans (h₁.others t ht)
  link := h₂.link.trans h₁.link
  sessionKey := h₂.sessionKey.trans h₁.sessionKey
  sessionToken := h₂.sessionToken.trans h₁.sessionToken
  registry := h₂.registry.trans h₁.registry
  keys := h₂.keys.trans h₁.keys
  tokens := h₂.tokens.trans h₁.tokens

/-- The session is overwritten. -/
theorem setSession
    (w : World A) (x : Session)
    (hlink : x.link = (w.sessions s).link)
    (hkey : x.sessionKey = (w.sessions s).sessionKey)
    (htoken : x.sessionToken = (w.sessions s).sessionToken) :
    Private s w (w.setSession s x) := by
  refine ⟨rfl, ?_, ?_, ?_, ?_, rfl, rfl, rfl⟩
  · intro t ht
    rw [World.setSession_sessions, Function.update_of_ne ht]
  · rw [World.setSession_sessions, Function.update_self, hlink]
  · rw [World.setSession_sessions, Function.update_self, hkey]
  · rw [World.setSession_sessions, Function.update_self, htoken]

end Private

variable (env : Env A)

theorem private_touch
    (w : World A) (s : SessionId) :
    Private s w (touch env w s) := by
  simp only [touch]
  cases env.kind with
  | tcp =>
      exact Private.setSession w _ rfl rfl rfl
  | router =>
      exact Private.refl w

theorem private_storeSeq
    (w : World A) (s : SessionId) (n : Nat) :
    Private s w (storeSeq env w s n) := by
  simp only [storeSeq]
  cases env.kind with
  | tcp =>
      exact Private.setSession w _ rfl rfl rfl
  | router =>
      exact Private.refl w

theorem private_createPacket
    (s : SessionId) {w w' : World A} {p : PacketId}
    (hcreate : createPacket env w = some (p, w')) :
    Private s w w' := by
  obtain ⟨rfl, data, rfl⟩ := createPacket_eq_some env hcreate
  exact ⟨rfl, fun _ _ => rfl, rfl, rfl, rfl, rfl, rfl, rfl⟩

theorem private_linkAnswer
    (s : SessionId) (w : World A) (l : LinkId) (m : Message) :
    Private s w (linkAnswer env w l m) := by
  simp only [linkAnswer]
  split
  · exact Private.refl w
  · rename_i hcreate
    exact (private_createPacket env s hcreate).trans
      ⟨rfl, fun _ _ => rfl, rfl, rfl, rfl, rfl, rfl, rfl⟩

/-- The end of a round that goes on. -/
theorem private_advance
    {cur : LinkId} {w w' : World A} {s : SessionId} {n : Nat}
    (h : advance env cur w s n = .inl w') :
    Private s w w' := by
  have hpacket : ∀ (w : World A) p x, Private s w (w.setPacket p x) :=
    fun _ _ _ => ⟨rfl, fun _ _ => rfl, rfl, rfl, rfl, rfl, rfl, rfl⟩
  have hremoved := hpacket w (w.sessions s).recvPacket
    ((w.packets (w.sessions s).recvPacket).remove n)
  simp only [advance] at h
  split at h
  · split at h
    · cases h
    · rename_i q w₁ hcreate
      split at h
      · cases h
      · cases h
        exact ((hremoved.trans (private_createPacket env s hcreate)).trans
          (hpacket w₁ q _)).trans
            (Private.setSession _ { w₁.sessions s with recvPacket := q } rfl rfl rfl)
  · split at h
    · cases h
      exact hremoved
    · cases h
      exact hremoved.trans (hpacket _ _ _)

end PrivateChanges

section SingleFrames

variable {A : Type} (env : Env A)

/-- The acts of a read that carries one frame. -/
def frameActs (l : LinkId) (s : SessionId) (f : Frame) : List Act :=
  [.append l f.bytes, .deliver l s, .advance l s f.length]

variable {w : World A} {l : LinkId} {s : SessionId} {f : Frame}

/-- The first act queues the bytes. -/
theorem receiving_appendRead
    {bytes : List UInt8}
    (h : Receiving w l s [])
    (hlength : bytes.length ≤ Buffer.maxSize) :
    Receiving (appendRead env l w bytes) l s bytes ∧
      Private s w (appendRead env l w bytes) ∧
      ((appendRead env l w bytes).sessions s).msgSeq = (w.sessions s).msgSeq := by
  have htouch := receiving_touch env h
  have hfits : ([] : List UInt8).length + bytes.length ≤ Buffer.maxSize := by
    rw [List.length_nil, Nat.zero_add]
    exact hlength
  obtain ⟨packet, happend, hholds⟩ := htouch.toHolds.append hfits
  have happend' : ((touch env w s).packets ((touch env w s).sessions s).recvPacket).append
      bytes = .ok packet := happend
  simp only [appendRead, h.session, happend']
  rw [List.nil_append] at hholds
  refine ⟨⟨hholds, htouch.session, htouch.link⟩, ?_, ?_⟩
  · exact (private_touch env w s).trans
      ⟨rfl, fun _ _ => rfl, rfl, rfl, rfl, rfl, rfl, rfl⟩
  · exact touch_msgSeq env w s s

/-- A frame that is read. -/
theorem receiving_frame
    (h : Receiving w l s []) :
    Receiving (appendRead env l w f.bytes) l s (f.bytes ++ []) ∧
      Private s w (appendRead env l w f.bytes) ∧
      ((appendRead env l w f.bytes).sessions s).msgSeq = (w.sessions s).msgSeq := by
  rw [List.append_nil]
  exact receiving_appendRead env h (Nat.le_of_lt f.length_lt)

/-- The last act leaves an empty packet. -/
theorem private_advanceRead
    (h : Holds w s (f.bytes ++ [])) :
    Private s w (advanceRead env l w s f.length) ∧
      Holds (advanceRead env l w s f.length) s [] ∧
      ((advanceRead env l w s f.length).sessions s).msgSeq = (w.sessions s).msgSeq ∧
      ((advanceRead env l w s f.length).sessions s).recvPacket = (w.sessions s).recvPacket := by
  obtain ⟨w', hadvance, hholds, hadvanced, hpacket, _⟩ :=
    advance_last env l (drop_of_front h) h.created rfl
  simp only [advanceRead, hadvance]
  exact ⟨private_advance env hadvance, hholds, hadvanced.msgSeq_eq s, hpacket⟩

/-- A frame that the sequence number test lets pass. -/
theorem passes_of_receiving
    (htcp : env.kind = .tcp)
    (h : Receiving w l s (f.bytes ++ []))
    (hseq : (w.sessions s).msgSeq < f.seq) :
    passes env w s (w.recvPacket s) = true := by
  have hfront := passes_of_front env h.toHolds
  simp only [Kind.accepts, htcp, hseq, decide_true] at hfront
  exact hfront

/-- Behind Recv_Connect_Req the session is registered, and nothing else is changed
when the application does nothing. -/
theorem recvConnectReq_registers
    (cur : LinkId)
    (hidle : ∀ app, (env.onAccept app s).commands = [])
    (hlink : (w.sessions s).link = some l) :
    ∃ w', (recvConnectReq env cur w s).caught = .ok w' ∧
      Private s (registerSession env w s) w' := by
  have hregistered : ((registerSession env w s).sessions s).link = some l := by
    rw [(quiet_registerSession env w s).link, hlink]
  have hkey : ((renewToken env w s).sessions s).sessionKey = (w.sessions s).sessionKey :=
    sessionKey_renewToken env w s s
  have hreact : ∀ w₁ : World A, Private s (registerSession env w s) w₁ →
      ∃ w', (react env cur w₁ (env.onAccept w₁.app s)).caught = .ok w' ∧
        Private s (registerSession env w s) w' := by
    intro w₁ hprivate
    refine ⟨{ w₁ with app := (env.onAccept w₁.app s).app }, ?_, ?_⟩
    · simp only [react, runCommands, hidle, List.foldl_nil]
      split
      · rfl
      · rfl
    · exact hprivate.trans ⟨rfl, fun _ _ => rfl, rfl, rfl, rfl, rfl, rfl, rfl⟩
  simp only [recvConnectReq, hlink, hkey]
  apply hreact
  simp only [sessionAnswer]
  rw [show ((addSession (renewToken env w s) (w.sessions s).sessionKey s).sessions s).link =
    some l from hregistered]
  exact private_linkAnswer env s _ l _

/-- The delivery of a Connect_Req. -/
theorem deliver_connect
    (htcp : env.kind = .tcp)
    (hhandler : env.handlers msgIdConnectReq = some .connectReq)
    (hidle : ∀ app, (env.onAccept app s).commands = [])
    (h : Receiving w l s (f.bytes ++ []))
    (hid : f.id = msgIdConnectReq)
    (hseq : (w.sessions s).msgSeq < f.seq) :
    ∃ w₁ w₂, Private s w w₁ ∧ Private s (registerSession env w₁ s) w₂ ∧
      (w₂.sessions s).msgSeq = f.seq ∧ deliver env l w s = .ok w₂ := by
  have hpasses := passes_of_receiving env htcp h hseq
  have hshows := shows_of_front h.readCursor h.unread
  obtain ⟨w', hcall, hprivate⟩ := recvConnectReq_registers env (w := (w.log
    (.examine s (w.recvPacket s))).log (.dispatch s (w.recvPacket s))) l hidle h.link
  refine ⟨(w.log (.examine s (w.recvPacket s))).log (.dispatch s (w.recvPacket s)),
    storeSeq env w' s (w.recvPacket s).getSEQ, ⟨rfl, fun _ _ => rfl, rfl, rfl, rfl, rfl, rfl, rfl⟩,
    hprivate.trans (private_storeSeq env w' s _), ?_, ?_⟩
  · simp only [storeSeq, htcp, World.setSession_sessions, Function.update_self, hshows.getSEQ]
  have hdispatch : dispatch env l (w.log (.examine s (w.recvPacket s))) s (w.recvPacket s) =
      .ok w' := by
    simp only [dispatch, findHandler, hshows.getID, hid, hhandler, getHandler, runHandler]
    exact hcall
  rw [deliver_of_passes env hpasses, hdispatch, Outcome.bind_ok]

/-- The acts of a Connect_Req register the session. -/
theorem acts_connect
    (htcp : env.kind = .tcp)
    (hhandler : env.handlers msgIdConnectReq = some .connectReq)
    (hidle : ∀ app, (env.onAccept app s).commands = [])
    (h : Receiving w l s [])
    (hid : f.id = msgIdConnectReq)
    (hseq : (w.sessions s).msgSeq < f.seq) :
    ∃ w₁, Private s w w₁ ∧
      Private s (registerSession env w₁ s) (acts env w (frameActs l s f)) ∧
      ((acts env w (frameActs l s f)).sessions s).msgSeq = f.seq := by
  obtain ⟨h₁, hprivate₁, hseq₁⟩ := receiving_frame env (f := f) h
  obtain ⟨w₂, w₃, hprivate₂, hprivate₃, hseq₃, hdeliver⟩ :=
    deliver_connect env htcp hhandler hidle h₁ hid (by rw [hseq₁]; exact hseq)
  have hholds := holds_deliver env h₁.toHolds hdeliver
  obtain ⟨hprivate₄, _, hseq₄, _⟩ := private_advanceRead env (l := l) hholds
  refine ⟨w₂, hprivate₁.trans hprivate₂, ?_⟩
  simp only [acts, frameActs, List.foldl_cons, List.foldl_nil, act, hdeliver, Outcome.world_ok]
  exact ⟨hprivate₃.trans hprivate₄, hseq₄.trans hseq₃⟩

end SingleFrames

section Joining

variable {A : Type} (env : Env A)

/-- A link whose socket was accepted and that has a session. -/
def Link.accepted (s : SessionId) : Link where
  isOpen := true
  session := some s
  busy := true
  closures := []

/-- A client connected on link l: session s is registered under the next key, with
the next token. -/
structure Joined (l : LinkId) (s : SessionId) (w w' : World A) : Prop where
  links : w'.links = Function.update w.links l (Link.accepted s)
  others : ∀ t, t ≠ s → w'.sessions t = w.sessions t
  link : (w'.sessions s).link = some l
  sessionKey : (w'.sessions s).sessionKey = w.keys + 1
  sessionToken : (w'.sessions s).sessionToken = env.token w.tokens (w.keys + 1)
  msgSeq : (w'.sessions s).msgSeq = connectReq.seq
  registry : w'.registry = Function.update w.registry (w.keys + 1) (some s)
  keys : w'.keys = w.keys + 1
  tokens : w'.tokens = w.tokens + 1

/-- The steps of a client that connects. -/
def joinSteps (l : LinkId) (s : SessionId) : List Manager.Step :=
  .accept l :: (frameActs l s connectReq).map .act

variable {w : World A} {l : LinkId} {s : SessionId}

/-- Accepting attaches a fresh session. -/
theorem onAccept_private
    (hpool : (env.pool w.created).isSome) :
    ∃ w₁, onAccept env (openLink w l) l (some s) = .ok w₁ ∧
      w₁.links = Function.update w.links l (Link.accepted s) ∧
      w₁.keys = w.keys + 1 := by
  obtain ⟨data, hdata⟩ := Option.isSome_iff_exists.mp hpool
  simp only [onAccept, createPacket, openLink, World.setLink, hdata]
  refine ⟨_, rfl, ?_, ?_⟩
  · simp [attachSession, links_attachClosure, World.setSession, World.setPacket, World.log,
      Link.accepted]
  · simp [attachSession, attachClosure, releaseSession, World.setSession, World.setLink,
      World.setPacket, World.log]

/-- The acts of a run change the world only. -/
theorem Manager.run_acts
    (m : Manager A) (as : List Act) :
    Manager.run env m (as.map .act) = { m with world := acts env m.world as } := by
  induction as generalizing m with
  | nil =>
      rfl
  | cons a as ih =>
      exact ih { m with world := act env m.world a }

/-- A client connects while there are links and sessions in the pools and its key is
free. -/
theorem joined
    {m : Manager A} {p q : Pool}
    (htcp : env.kind = .tcp)
    (hhandler : env.handlers msgIdConnectReq = some .connectReq)
    (hidle : ∀ app, (env.onAccept app s).commands = [])
    (hpool : (env.pool m.world.created).isSome)
    (hlinks : m.links.create = some (l, p))
    (hsessions : m.sessions.create = some (s, q))
    (hfree : m.world.registry (m.world.keys + 1) = none) :
    (Manager.run env m (joinSteps l s)).links = p ∧
      (Manager.run env m (joinSteps l s)).sessions = q ∧
      Joined env l s m.world (Manager.run env m (joinSteps l s)).world := by
  obtain ⟨w₁, haccept, hreceiving, _, hseq⟩ := onAccept_receiving env m.world l s hpool
  obtain ⟨w₁', haccept', haccepted, hkeys⟩ :=
    onAccept_private env (w := m.world) (l := l) (s := s) hpool
  obtain ⟨hregistry, htokens, hkey, hothers⟩ := onAccept_others env haccept
  rw [haccept, Outcome.ok.injEq] at haccept'
  subst haccept'
  obtain ⟨w₂, hprivate₂, hprivate₃, hconnected⟩ :=
    acts_connect env (f := connectReq) htcp hhandler hidle hreceiving (by decide)
      (by rw [hseq]; decide)
  have hmanager : Manager.accept env m l = { world := w₁, links := p, sessions := q } := by
    simp only [Manager.accept, hlinks, hsessions, Manager.onAcceptFrom_self, haccept,
      Outcome.world_ok]
  have hrun : Manager.run env m (joinSteps l s) =
      { world := acts env w₁ (frameActs l s connectReq), links := p,
        sessions := q } := by
    have hacts := Manager.run_acts env { world := w₁, links := p, sessions := q }
      (frameActs l s connectReq)
    rw [← hacts, ← hmanager]
    rfl
  rw [hrun]
  refine ⟨rfl, rfl, ?_⟩
  have hkey₂ : (w₂.sessions s).sessionKey = m.world.keys + 1 := by
    rw [hprivate₂.sessionKey, hkey]
  have hquiet := quiet_registerSession env w₂ s
  obtain ⟨hkeys₂, htokens₂⟩ := counters_registerSession env w₂ s
  refine ⟨?_, ?_, ?_, ?_, ?_, hconnected, ?_, ?_, ?_⟩
  · rw [hprivate₃.links, hquiet.links, hprivate₂.links, haccepted]
  · intro t ht
    rw [hprivate₃.others t ht, sessions_registerSession env w₂ ht, hprivate₂.others t ht,
      hothers t ht]
  · rw [hprivate₃.link, hquiet.link, hprivate₂.link, hreceiving.link]
  · rw [hprivate₃.sessionKey, sessionKey_registerSession, hkey₂]
  · rw [hprivate₃.sessionToken, sessionToken_registerSession, hkey₂, hprivate₂.tokens, htokens]
  · rw [hprivate₃.registry, registry_registerSession, hkey₂, hprivate₂.registry, hregistry,
      hfree, Option.getD_none]
  · rw [hprivate₃.keys, hkeys₂, hprivate₂.keys, hkeys]
  · rw [hprivate₃.tokens, htokens₂, hprivate₂.tokens, htokens]

/-- A client opened link l, and a frame of it was read that is not examined yet. -/
structure Asking (l : LinkId) (s : SessionId) (f : Frame) (w w' : World A) : Prop where
  receiving : Receiving w' l s (f.bytes ++ [])
  msgSeq : (w'.sessions s).msgSeq = 0
  links : w'.links = Function.update w.links l (Link.accepted s)
  others : ∀ t, t ≠ s → w'.sessions t = w.sessions t
  registry : w'.registry = w.registry
  tokens : w'.tokens = w.tokens

/-- The steps of a client that opens a link and sends a frame. -/
def askSteps (l : LinkId) (f : Frame) : List Manager.Step :=
  [.accept l, .act (.append l f.bytes)]

theorem asking
    {m : Manager A} {p q : Pool}
    (hpool : (env.pool m.world.created).isSome)
    (hlinks : m.links.create = some (l, p))
    (hsessions : m.sessions.create = some (s, q))
    (f : Frame) :
    Asking l s f m.world (Manager.run env m (askSteps l f)).world := by
  obtain ⟨w₁, haccept, hreceiving, _, hseq⟩ := onAccept_receiving env m.world l s hpool
  obtain ⟨w₁', haccept', haccepted, _⟩ :=
    onAccept_private env (w := m.world) (l := l) (s := s) hpool
  obtain ⟨hregistry, htokens, _, hothers⟩ := onAccept_others env haccept
  rw [haccept, Outcome.ok.injEq] at haccept'
  subst haccept'
  obtain ⟨h₁, hprivate, hseq₁⟩ := receiving_frame env (f := f) hreceiving
  have hworld : (Manager.run env m (askSteps l f)).world = appendRead env l w₁ f.bytes := by
    simp only [Manager.run, askSteps, List.foldl_cons, List.foldl_nil, Manager.step,
      Manager.accept, hlinks, hsessions, Manager.onAcceptFrom_self, haccept, Outcome.world_ok,
      act]
  rw [hworld]
  refine ⟨h₁, by rw [hseq₁, hseq], ?_, ?_, ?_, ?_⟩
  · rw [hprivate.links, haccepted]
  · intro t ht
    rw [hprivate.others t ht, hothers t ht]
  · rw [hprivate.registry, hregistry]
  · rw [hprivate.tokens, htokens]

/-- What a valid Reconnect_Req asks for. -/
theorem demand_reconnect
    {f : Frame} {other : SessionId}
    (htcp : env.kind = .tcp)
    (h : Receiving w l s (f.bytes ++ []))
    (hvalid : ValidReconnect env w s f other) :
    demand env w s = .takeOver l other := by
  have hpasses := passes_of_receiving env htcp h hvalid.seq
  have hshows := shows_of_front h.readCursor h.unread
  obtain ⟨key, token, hparse, hkey, htoken⟩ := hvalid.request
  obtain ⟨trailing, htext⟩ := reconnectText_of_front h.readCursor h.unread
  simp only [demand, if_pos hpasses, dispatchDemand, hshows.getID, hvalid.id, hvalid.handler,
    handlerDemand, h.link, takeover, htext, hparse, hkey, htoken, ne_eq, not_true_eq_false,
    if_false]

end Joining

end Tcp
end Gamnet
