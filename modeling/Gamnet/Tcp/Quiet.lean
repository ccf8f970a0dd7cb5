import Gamnet.Tcp.LinkManager

/-!
# Quiet functions and handlers that keep an attachment

The functions that create packets, answer, renew tokens and register sessions
leave every link, every attachment, every sequence number and every packet that
exists alone (`Quiet`).

A handler keeps the attachment of link l and session s in the worlds of a predicate when it
has an instance there and its function leaves the two attached to each other, whatever else
it does. The HeartBeat_Req handler of the manager does, and so does an
application handler that only sends.
-/

namespace Gamnet
namespace Tcp

section QuietFunctions

variable {A : Type}

/-- What the functions that only answer and register cannot change. -/
structure Quiet (w w' : World A) : Prop where
  links : w'.links = w.links
  link : ∀ s, (w'.sessions s).link = (w.sessions s).link
  recvPacket : ∀ s, (w'.sessions s).recvPacket = (w.sessions s).recvPacket
  msgSeq : ∀ s, (w'.sessions s).msgSeq = (w.sessions s).msgSeq
  created : w.created ≤ w'.created
  packets : ∀ p, p < w.created → w'.packets p = w.packets p
  trace : w'.trace = w.trace

namespace Quiet

theorem refl
    (w : World A) :
    Quiet w w :=
  ⟨rfl, fun _ => rfl, fun _ => rfl, fun _ => rfl, Nat.le_refl _,
    fun _ _ => rfl, rfl⟩

theorem trans
    {w₁ w₂ w₃ : World A}
    (h₁ : Quiet w₁ w₂)
    (h₂ : Quiet w₂ w₃) :
    Quiet w₁ w₃ where
  links := h₂.links.trans h₁.links
  link := fun s => (h₂.link s).trans (h₁.link s)
  recvPacket := fun s => (h₂.recvPacket s).trans (h₁.recvPacket s)
  msgSeq := fun s => (h₂.msgSeq s).trans (h₁.msgSeq s)
  created := Nat.le_trans h₁.created h₂.created
  packets := fun p hp =>
    (h₂.packets p (Nat.lt_of_lt_of_le hp h₁.created)).trans (h₁.packets p hp)
  trace := h₂.trace.trans h₁.trace

/-- A packet that exists is still there, unchanged. -/
theorem recvPacket_eq
    {w w' : World A}
    (h : Quiet w w')
    {s : SessionId}
    (hs : (w.sessions s).recvPacket < w.created) :
    w'.recvPacket s = w.recvPacket s := by
  unfold World.recvPacket
  rw [h.recvPacket s, h.packets _ hs]

end Quiet

/-- Overwriting fields of a session other than its link, packet and sequence
number is quiet. -/
theorem quiet_setSession
    (w : World A) (s : SessionId) (x : Session)
    (hlink : x.link = (w.sessions s).link)
    (hpacket : x.recvPacket = (w.sessions s).recvPacket)
    (hseq : x.msgSeq = (w.sessions s).msgSeq) :
    Quiet w (w.setSession s x) := by
  refine ⟨rfl, ?_, ?_, ?_, Nat.le_refl _, fun _ _ => rfl, rfl⟩ <;>
    intro s' <;>
    by_cases h : s' = s
  all_goals
    simp only [World.setSession_sessions]
  · subst h
    simp [hlink]
  · simp [h]
  · subst h
    simp [hpacket]
  · simp [h]
  · subst h
    simp [hseq]
  · simp [h]

variable (env : Env A)

/-- Creating a packet only adds it to the heap. -/
theorem quiet_createPacket
    {w w' : World A} {p : PacketId}
    (hcreate : createPacket env w = some (p, w')) :
    Quiet w w' := by
  obtain ⟨rfl, data, rfl⟩ := createPacket_eq_some env hcreate
  refine ⟨rfl, fun _ => rfl, fun _ => rfl, fun _ => rfl,
    Nat.le_succ _, ?_, rfl⟩
  intro q hq
  have hne : q ≠ w.created := Nat.ne_of_lt hq
  simp [World.setPacket, hne]

theorem quiet_linkAnswer
    (w : World A) (l : LinkId) (m : Message) :
    Quiet w (linkAnswer env w l m) := by
  unfold linkAnswer
  cases hcreate : createPacket env w with
  | none =>
      exact Quiet.refl w
  | some r =>
      obtain ⟨p, w'⟩ := r
      exact (quiet_createPacket env hcreate).trans
        ⟨rfl, fun _ => rfl, fun _ => rfl, fun _ => rfl, Nat.le_refl _,
          fun _ _ => rfl, rfl⟩

theorem quiet_sessionAnswer
    (w : World A) (s : SessionId) (m : Message) :
    Quiet w (sessionAnswer env w s m) := by
  unfold sessionAnswer
  cases hlink : (w.sessions s).link with
  | none =>
      cases hcreate : createPacket env w with
      | none =>
          exact Quiet.refl w
      | some r =>
          exact quiet_createPacket env hcreate
  | some l =>
      exact quiet_linkAnswer env w l m

theorem quiet_renewToken
    (w : World A) (s : SessionId) :
    Quiet w (renewToken env w s) := by
  have hset := quiet_setSession w s
    { w.sessions s with
      sessionToken := env.token w.tokens (w.sessions s).sessionKey }
    rfl rfl rfl
  exact hset.trans
    ⟨rfl, fun _ => rfl, fun _ => rfl, fun _ => rfl, Nat.le_refl _,
      fun _ _ => rfl, rfl⟩

theorem quiet_addSession
    (w : World A) (key : Nat) (s : SessionId) :
    Quiet w (addSession w key s) := by
  cases hkey : w.registry key with
  | some other =>
      simp only [addSession, hkey]
      exact Quiet.refl w
  | none =>
      have hset := quiet_setSession w s
        { w.sessions s with expireTime := w.now } rfl rfl rfl
      simp only [addSession, hkey]
      exact hset.trans
        ⟨rfl, fun _ => rfl, fun _ => rfl, fun _ => rfl, Nat.le_refl _,
          fun _ _ => rfl, rfl⟩

/-- A change of the application state is quiet. -/
theorem quiet_app
    (w : World A) (app : A) :
    Quiet w { w with app := app } :=
  ⟨rfl, fun _ => rfl, fun _ => rfl, fun _ => rfl, Nat.le_refl _,
    fun _ _ => rfl, rfl⟩

theorem quiet_send
    (cur : LinkId) (w : World A) (s : SessionId) (buf : List UInt8) :
    Quiet w (command env cur w (.send s buf)) := by
  cases hlink : (w.sessions s).link with
  | none =>
      simp only [command, hlink]
      exact Quiet.refl w
  | some l =>
      simp only [command, hlink]
      exact ⟨rfl, fun _ => rfl, fun _ => rfl, fun _ => rfl,
        Nat.le_refl _, fun _ _ => rfl, rfl⟩

/-- Application code that only sends. -/
def Reaction.OnlySends (r : Reaction A) : Prop :=
  ∀ c ∈ r.commands, ∃ s buf, c = .send s buf

theorem quiet_runCommands
    (cur : LinkId) (w : World A) {cs : List Command}
    (hcs : ∀ c ∈ cs, ∃ s buf, c = .send s buf) :
    Quiet w (runCommands env cur w cs) := by
  simp only [runCommands]
  induction cs generalizing w with
  | nil =>
      exact Quiet.refl w
  | cons c cs ih =>
      obtain ⟨s, buf, rfl⟩ := hcs c List.mem_cons_self
      rw [List.foldl_cons]
      exact (quiet_send env cur w s buf).trans
        (ih _ (fun c' hc' => hcs c' (List.mem_cons_of_mem _ hc')))

theorem quiet_react
    (cur : LinkId) (w : World A) {r : Reaction A}
    (hr : r.OnlySends) :
    Quiet w (react env cur w r).world := by
  have hquiet := (quiet_app w r.app).trans
    (quiet_runCommands env cur { w with app := r.app } hr)
  simp only [react]
  split
  · exact hquiet
  · exact hquiet

theorem quiet_recvHeartBeatReq
    (w : World A) (s : SessionId) :
    Quiet w (recvHeartBeatReq env w s).world := by
  cases hlink : (w.sessions s).link with
  | none =>
      simp only [recvHeartBeatReq, hlink]
      exact Quiet.refl w
  | some l =>
      simp only [recvHeartBeatReq, hlink]
      exact quiet_sessionAnswer env w s _

end QuietFunctions

section Keeping

variable {A : Type}

/-- Link l and session s are attached to each other. -/
structure Attached (w : World A) (l : LinkId) (s : SessionId) : Prop where
  session : (w.links l).session = some s
  link : (w.sessions s).link = some l

/-- A quiet function keeps every attachment. -/
theorem Attached.quiet
    {w w' : World A} {l : LinkId} {s : SessionId}
    (h : Attached w l s)
    (hquiet : Quiet w w') :
    Attached w' l s := by
  refine ⟨?_, ?_⟩
  · rw [hquiet.links, h.session]
  · rw [hquiet.link, h.link]

variable (env : Env A)

/-- The world in which the packet of session s is handed to a handler. -/
def World.handing (w : World A) (s : SessionId) : World A :=
  (w.log (.examine s (w.recvPacket s))).log (.dispatch s (w.recvPacket s))

/-- A handler that has an instance for the packet of session s and does not separate link l
and session s, in every world of P. -/
structure Handler.Keeps (P : World A → Prop) (l : LinkId) (s : SessionId) (h : Handler A) :
    Prop where
  hasInstance : ∀ w, P w → Attached w l s → ∃ app, getHandler h (w.handing s) s = some app
  attached : ∀ w app, P w → Attached w l s → getHandler h (w.handing s) s = some app →
    Attached (runHandler env l h { w.handing s with app := app } s (w.recvPacket s)).world l s

/-- A message id whose handler does not separate link l and session s, in the worlds of P. -/
def Env.KeepsOn (P : World A → Prop) (l : LinkId) (s : SessionId) (msgId : Nat) : Prop :=
  ∃ h, env.handlers msgId = some h ∧ h.Keeps env P l s

/-- Handing a packet over changes no attachment. -/
theorem Attached.handing
    {w : World A} {l : LinkId} {s : SessionId}
    (h : Attached w l s)
    (app : A) :
    Attached { w.handing s with app := app } l s :=
  ⟨h.session, h.link⟩

/-- The HeartBeat_Req handler only answers. -/
theorem keeps_heartBeatReq
    (P : World A → Prop) (l : LinkId) (s : SessionId) :
    Handler.Keeps env P l s .heartBeatReq := by
  refine ⟨?_, ?_⟩
  · intro w _ _
    exact ⟨w.app, rfl⟩
  · intro w app _ h _
    exact (h.handing app).quiet (quiet_recvHeartBeatReq env _ s)

/-- An application handler that has an instance and only sends. -/
theorem keeps_of_onlySends
    {P : World A → Prop} (l : LinkId) (s : SessionId) {u : UserHandler A}
    (hinstance : ∀ w, P w → ∃ app, u.getHandler (w.handing s) s = some app)
    (hsends : ∀ w packet, (u.function w s packet).OnlySends) :
    Handler.Keeps env P l s (.user u) := by
  refine ⟨?_, ?_⟩
  · intro w hw _
    exact hinstance w hw
  · intro w app _ h _
    exact (h.handing app).quiet (quiet_react env l _ (hsends _ _))

/-- Every handler returns on a session that has a link. -/
theorem runHandler_returns
    (cur : LinkId) (h : Handler A) {w : World A} {s : SessionId}
    {l : LinkId} (packet : Packet)
    (hlink : (w.sessions s).link = some l) :
    ∃ w', (runHandler env cur h w s packet).caught = .ok w' := by
  cases h with
  | connectReq =>
      simp only [runHandler, recvConnectReq, hlink, react]
      split
      · exact ⟨_, rfl⟩
      · exact ⟨_, rfl⟩
  | reconnectReq =>
      simp only [runHandler, recvReconnectReq, hlink]
      split
      · exact ⟨_, rfl⟩
      · exact ⟨_, rfl⟩
      · split
        · exact ⟨_, rfl⟩
        · split
          · exact ⟨_, rfl⟩
          · exact ⟨_, rfl⟩
  | heartBeatReq =>
      simp only [runHandler, recvHeartBeatReq, hlink]
      exact ⟨_, rfl⟩
  | user u =>
      simp only [runHandler, recvUser, react]
      split
      · exact ⟨_, rfl⟩
      · exact ⟨_, rfl⟩

/-- A handler function dies only where it logs the key of a NULL link. -/
theorem runHandler_crash
    {cur : LinkId} {h : Handler A} {w w' : World A} {s : SessionId}
    {packet : Packet} {c : Crash}
    (hcrash : (runHandler env cur h w s packet).caught = .crash c w') :
    c = .nullHandlerLink := by
  cases hlink : (w.sessions s).link with
  | some l =>
      obtain ⟨w₁, hw₁⟩ := runHandler_returns env cur h packet hlink
      rw [hw₁] at hcrash
      cases hcrash
  | none =>
      cases h with
      | connectReq =>
          simp only [runHandler, recvConnectReq, hlink, Outcome.caught] at hcrash
          cases hcrash
          rfl
      | reconnectReq =>
          simp only [runHandler, recvReconnectReq, hlink, Outcome.caught] at hcrash
          cases hcrash
          rfl
      | heartBeatReq =>
          simp only [runHandler, recvHeartBeatReq, hlink, Outcome.caught] at hcrash
          cases hcrash
          rfl
      | user u =>
          simp only [runHandler, recvUser, react] at hcrash
          split at hcrash
          · cases hcrash
          · cases hcrash

/-- The dispatcher returns and keeps the attachment when the handler does. -/
theorem dispatch_of_keepsOn
    {P : World A → Prop} {l : LinkId} {s : SessionId} {w : World A}
    (hkeeps : env.KeepsOn P l s (w.recvPacket s).getID)
    (hw : P w)
    (hattached : Attached w l s) :
    ∃ w', dispatch env l (w.log (.examine s (w.recvPacket s))) s (w.recvPacket s) = .ok w' ∧
      Attached w' l s := by
  obtain ⟨h, hregistered, hkeeps⟩ := hkeeps
  obtain ⟨app, hinstance⟩ := hkeeps.hasInstance w hw hattached
  have hfind :
      findHandler env (w.handing s) s (w.recvPacket s).getID = some (h, app) := by
    simp only [findHandler, hregistered, hinstance]
  obtain ⟨w', hw'⟩ :=
    runHandler_returns env l h (w.recvPacket s) (hattached.handing app).link
  refine ⟨w', ?_, ?_⟩
  · rw [World.handing] at hfind hw'
    simp only [dispatch, hfind]
    exact hw'
  · have hworld := Outcome.caught_world
      (runHandler env l h { w.handing s with app := app } s (w.recvPacket s))
    rw [hw'] at hworld
    have hattached' := hkeeps.attached w app hw hattached hinstance
    rw [← hworld] at hattached'
    exact hattached'

end Keeping

end Tcp
end Gamnet
