import Gamnet.Tcp.Quiet

/-!
# What handlers cannot change

Handlers may close links, move attachments and take sessions over, but none of
them touches a sequence number, the packet of the session that is receiving, or
the content of a packet that exists. No session gets a packet that no session
had. To the trace they only add the links that they close, and no link is opened.

`steady_dispatch` states this for the dispatcher. The receive loop relies on it:
the frames it examines depend on the bytes alone.
-/

namespace Gamnet
namespace Tcp

section OpenLinks

variable {A : Type}

theorem isOpen_releaseSession
    (w : World A) (l k : LinkId) :
    ((releaseSession w l).links k).isOpen = (w.links k).isOpen := by
  simp only [releaseSession]
  split
  · rfl
  · rfl

theorem isOpen_setLink
    (w : World A) (l : LinkId) (x : Link) (k : LinkId)
    (hopen : x.isOpen = (w.links l).isOpen) :
    ((w.setLink l x).links k).isOpen = (w.links k).isOpen := by
  rw [World.setLink_links]
  by_cases hk : k = l
  · subst hk
    rw [Function.update_self, hopen]
  · rw [Function.update_of_ne hk]

theorem isOpen_attachClosure
    (w : World A) (l : LinkId) (session : Option SessionId) (k : LinkId) :
    ((attachClosure w l session).links k).isOpen = (w.links k).isOpen := by
  have hset := isOpen_setLink (releaseSession w l) l
    { (releaseSession w l).links l with session := session } k rfl
  rw [isOpen_releaseSession] at hset
  cases session with
  | none =>
      exact hset
  | some s =>
      exact hset

/-- Attaching and detaching sessions opens and closes nothing. -/
theorem isOpen_attachSession
    (cur : LinkId) (w : World A) (l : LinkId) (session : Option SessionId)
    (k : LinkId) :
    ((attachSession cur w l session).links k).isOpen =
      (w.links k).isOpen := by
  simp only [attachSession]
  split
  · exact isOpen_attachClosure w l session k
  · exact isOpen_setLink w l _ k rfl

variable (env : Env A)

theorem isOpen_onClose
    (cur : LinkId) (w : World A) (l k : LinkId) :
    ((onClose env cur w l).1.links k).isOpen = (w.links k).isOpen := by
  simp only [onClose]
  split
  · rfl
  · split
    · rfl
    · rw [isOpen_attachSession]
      simp only [unregister]
      cases env.kind with
      | tcp =>
          rfl
      | router =>
          rfl

end OpenLinks

section SteadyHandlers

variable {A : Type}

/-- What no handler changes while session s receives. -/
structure Steady (s : SessionId) (w w' : World A) : Prop where
  recvPacket : (w'.sessions s).recvPacket = (w.sessions s).recvPacket
  shared : ∀ t, ∃ u,
    (w'.sessions t).recvPacket = (w.sessions u).recvPacket
  msgSeq : ∀ t, (w'.sessions t).msgSeq = (w.sessions t).msgSeq
  created : w.created ≤ w'.created
  packets : ∀ p, p < w.created → w'.packets p = w.packets p
  trace : ∃ closed : List LinkId,
    w'.trace = closed.map Event.close ++ w.trace ∧
      (∀ l ∈ closed, (w.links l).isOpen = true) ∧
      ∀ l, (w'.links l).isOpen = true ↔
        (w.links l).isOpen = true ∧ l ∉ closed

namespace Steady

variable {s : SessionId}

theorem trans
    {w₁ w₂ w₃ : World A}
    (h₁ : Steady s w₁ w₂)
    (h₂ : Steady s w₂ w₃) :
    Steady s w₁ w₃ := by
  obtain ⟨closed₁, htrace₁, hwas₁, hopen₁⟩ := h₁.trace
  obtain ⟨closed₂, htrace₂, hwas₂, hopen₂⟩ := h₂.trace
  refine ⟨h₂.recvPacket.trans h₁.recvPacket, ?_,
    fun t => (h₂.msgSeq t).trans (h₁.msgSeq t),
    Nat.le_trans h₁.created h₂.created, ?_, closed₂ ++ closed₁, ?_, ?_, ?_⟩
  · intro t
    obtain ⟨u, hu⟩ := h₂.shared t
    obtain ⟨v, hv⟩ := h₁.shared u
    exact ⟨v, hu.trans hv⟩
  · intro p hp
    have hp₂ : p < w₂.created := Nat.lt_of_lt_of_le hp h₁.created
    exact (h₂.packets p hp₂).trans (h₁.packets p hp)
  · rw [htrace₂, htrace₁, List.map_append, List.append_assoc]
  · intro l hl
    rcases List.mem_append.mp hl with hl | hl
    · exact ((hopen₁ l).mp (hwas₂ l hl)).1
    · exact hwas₁ l hl
  · intro l
    rw [hopen₂, hopen₁, List.mem_append]
    constructor
    · rintro ⟨⟨hopen, hfirst⟩, hsecond⟩
      exact ⟨hopen, fun h => h.elim hsecond hfirst⟩
    · rintro ⟨hopen, hnone⟩
      exact ⟨⟨hopen, fun h => hnone (Or.inr h)⟩, fun h => hnone (Or.inl h)⟩

/-- The packet of the receiving session is still there, unchanged. -/
theorem recvPacket_eq
    {w w' : World A}
    (h : Steady s w w')
    (hs : (w.sessions s).recvPacket < w.created) :
    w'.recvPacket s = w.recvPacket s := by
  simp only [World.recvPacket]
  rw [h.recvPacket, h.packets _ hs]

end Steady

theorem Quiet.steady
    {w w' : World A}
    (h : Quiet w w')
    (s : SessionId) :
    Steady s w w' := by
  refine ⟨h.recvPacket s, fun t => ⟨t, h.recvPacket t⟩, h.msgSeq, h.created,
    h.packets, [], h.trace, ?_, ?_⟩
  · intro l hl
    cases hl
  · intro l
    rw [h.links]
    simp

theorem Steady.refl
    (s : SessionId) (w : World A) :
    Steady s w w :=
  (Quiet.refl w).steady s

/-- Overwriting a link, but not whether it is open. -/
theorem steady_setLink
    (s : SessionId) (w : World A) (l : LinkId) (x : Link)
    (hopen : x.isOpen = (w.links l).isOpen) :
    Steady s w (w.setLink l x) := by
  refine ⟨rfl, fun t => ⟨t, rfl⟩, fun _ => rfl, Nat.le_refl _,
    fun _ _ => rfl, [], rfl, ?_, ?_⟩
  · intro k hk
    cases hk
  · intro k
    rw [isOpen_setLink w l x k hopen]
    simp

/-- Closing a link that is open. -/
theorem steady_close
    (s : SessionId) (w : World A) (l : LinkId)
    (hopen : (w.links l).isOpen = true) :
    Steady s w
      ((w.setLink l { w.links l with isOpen := false }).log (.close l)) := by
  refine ⟨rfl, fun t => ⟨t, rfl⟩, fun _ => rfl, Nat.le_refl _,
    fun _ _ => rfl, [l], rfl, ?_, ?_⟩
  · intro k hk
    rw [List.mem_singleton.mp hk]
    exact hopen
  · intro k
    rw [World.log_links, World.setLink_links]
    by_cases hk : k = l
    · subst hk
      rw [Function.update_self]
      simp
    · rw [Function.update_of_ne hk]
      simp [hk]

/-- Overwriting a session, but not its sequence number, and its packet only by
that of the receiving session. -/
theorem steady_setSession
    (s : SessionId) (w : World A) (t : SessionId) (x : Session)
    (hpacket : x.recvPacket = (w.sessions t).recvPacket ∨
      x.recvPacket = (w.sessions s).recvPacket)
    (hseq : x.msgSeq = (w.sessions t).msgSeq) :
    Steady s w (w.setSession t x) := by
  refine ⟨?_, ?_, ?_, Nat.le_refl _, fun _ _ => rfl, [], rfl, ?_, ?_⟩
  · rw [World.setSession_sessions]
    by_cases h : s = t
    · subst h
      rw [Function.update_self]
      exact hpacket.elim id id
    · rw [Function.update_of_ne h]
  · intro u
    rw [World.setSession_sessions]
    by_cases h : u = t
    · subst h
      rw [Function.update_self]
      rcases hpacket with hown | hother
      · exact ⟨u, hown⟩
      · exact ⟨s, hother⟩
    · rw [Function.update_of_ne h]
      exact ⟨u, rfl⟩
  · intro u
    rw [World.setSession_sessions]
    by_cases h : u = t
    · subst h
      rw [Function.update_self]
      exact hseq
    · rw [Function.update_of_ne h]
  · intro l hl
    cases hl
  · intro l
    rw [World.setSession_links]
    simp

theorem steady_releaseSession
    (s : SessionId) (w : World A) (l : LinkId) :
    Steady s w (releaseSession w l) := by
  simp only [releaseSession]
  cases (w.links l).session with
  | none =>
      exact Steady.refl s w
  | some old =>
      exact steady_setSession s w old _ (Or.inl rfl) rfl

theorem steady_attachClosure
    (s : SessionId) (w : World A) (l : LinkId)
    (session : Option SessionId) :
    Steady s w (attachClosure w l session) := by
  have hrelease := steady_releaseSession s w l
  have hset := steady_setLink s (releaseSession w l) l
    { (releaseSession w l).links l with session := session } rfl
  cases session with
  | none =>
      exact hrelease.trans hset
  | some t =>
      refine (hrelease.trans hset).trans ?_
      exact steady_setSession s _ t
        { (releaseSession w l).sessions t with link := some l }
        (Or.inl rfl) rfl

theorem steady_attachSession
    (s : SessionId) (cur : LinkId) (w : World A) (l : LinkId)
    (session : Option SessionId) :
    Steady s w (attachSession cur w l session) := by
  simp only [attachSession]
  split
  · exact steady_attachClosure s w l session
  · exact steady_setLink s w l _ rfl

variable (env : Env A)

theorem steady_unregister
    (s : SessionId) (w : World A) (t : SessionId) :
    Steady s w (unregister env w t) := by
  simp only [unregister]
  cases env.kind with
  | tcp =>
      exact Steady.refl s w
  | router =>
      refine Quiet.steady ?_ s
      exact ⟨rfl, fun _ => rfl, fun _ => rfl, fun _ => rfl, Nat.le_refl _,
        fun _ _ => rfl, rfl⟩

theorem steady_onClose
    (s : SessionId) (cur : LinkId) (w : World A) (l : LinkId) :
    Steady s w (onClose env cur w l).1 := by
  cases hsession : (w.links l).session with
  | none =>
      simp only [onClose, hsession]
      exact Steady.refl s w
  | some t =>
      rcases hclose : env.onClose w.app t with ⟨app, throws⟩
      have happ := (quiet_app w app).steady s
      cases throws with
      | true =>
          simp only [onClose, hsession, hclose]
          exact happ
      | false =>
          simp only [onClose, hsession, hclose]
          exact (happ.trans (steady_unregister env s _ t)).trans
            (steady_attachSession s cur _ l none)

theorem steady_onError
    (s : SessionId) (cur : LinkId) (w : World A) (l : LinkId) :
    Steady s w (onError env cur w l) := by
  simp only [onError]
  split
  · exact Steady.refl s w
  · rename_i hopen
    have hopen' : ((onClose env cur w l).1.links l).isOpen = true := by
      rw [isOpen_onClose]
      simpa using hopen
    exact (steady_onClose env s cur w l).trans (steady_close s _ l hopen')

theorem steady_command
    (s : SessionId) (cur : LinkId) (w : World A) (c : Command) :
    Steady s w (command env cur w c) := by
  cases c with
  | onError l =>
      exact steady_onError env s cur w l
  | attachSession l session =>
      exact steady_attachSession s cur w l session
  | send t buf =>
      exact (quiet_send env cur w t buf).steady s

theorem steady_runCommands
    (s : SessionId) (cur : LinkId) (w : World A) (cs : List Command) :
    Steady s w (runCommands env cur w cs) := by
  simp only [runCommands]
  induction cs generalizing w with
  | nil =>
      exact Steady.refl s w
  | cons c cs ih =>
      rw [List.foldl_cons]
      exact (steady_command env s cur w c).trans (ih _)

theorem steady_react
    (s : SessionId) (cur : LinkId) (w : World A) (r : Reaction A) :
    Steady s w (react env cur w r).world := by
  have hrun := ((quiet_app w r.app).steady s).trans
    (steady_runCommands env s cur _ r.commands)
  simp only [react]
  split
  · exact hrun
  · exact hrun

theorem steady_recvConnectReq
    (s : SessionId) (cur : LinkId) (w : World A) :
    Steady s w (recvConnectReq env cur w s).world := by
  cases hlink : (w.sessions s).link with
  | none =>
      simp only [recvConnectReq, hlink]
      exact Steady.refl s w
  | some l =>
      simp only [recvConnectReq, hlink]
      have h₁ := quiet_renewToken env w s
      have h₂ := quiet_addSession (renewToken env w s)
        ((renewToken env w s).sessions s).sessionKey s
      exact (((h₁.trans h₂).trans
        (quiet_sessionAnswer env _ s _)).steady s).trans
          (steady_react env s cur _ _)

theorem steady_rejectReconnect
    (s : SessionId) (cur : LinkId) (w : World A) (l : LinkId)
    (code : ErrorCode) :
    Steady s w (rejectReconnect env cur w s l code) :=
  (steady_attachSession s cur w l none).trans
    ((quiet_linkAnswer env _ l _).steady s)

theorem steady_leaveLink
    (s : SessionId) (cur : LinkId) (w : World A) (other : SessionId) :
    Steady s w (leaveLink cur w other) := by
  simp only [leaveLink]
  cases (w.sessions other).link with
  | none =>
      exact Steady.refl s w
  | some old =>
      exact steady_attachSession s cur w old none

/-- Taking a session over hands the packet of the receiving session on, but
does not change it. -/
theorem steady_acceptReconnect
    (s : SessionId) (cur : LinkId) (w : World A) (l : LinkId)
    (other : SessionId) :
    Steady s w (acceptReconnect env cur w s l other) := by
  simp only [acceptReconnect]
  refine (steady_leaveLink s cur w other).trans ?_
  refine (steady_setSession s _ other
    { (leaveLink cur w other).sessions other with
      recvPacket := ((leaveLink cur w other).sessions s).recvPacket }
    (Or.inr rfl) rfl).trans ?_
  refine ((quiet_renewToken env _ other).steady s).trans ?_
  refine (steady_attachSession s cur _ l (some other)).trans ?_
  exact (quiet_linkAnswer env _ l _).steady s

theorem steady_recvReconnectReq
    (s : SessionId) (cur : LinkId) (w : World A) (packet : Packet) :
    Steady s w (recvReconnectReq env cur w s packet).world := by
  cases hlink : (w.sessions s).link with
  | none =>
      simp only [recvReconnectReq, hlink]
      exact Steady.refl s w
  | some l =>
      simp only [recvReconnectReq, hlink]
      split
      · exact steady_rejectReconnect env s cur w l _
      · exact Steady.refl s w
      · split
        · exact steady_rejectReconnect env s cur w l _
        · split
          · exact steady_rejectReconnect env s cur w l _
          · exact steady_acceptReconnect env s cur w l _

theorem steady_recvHeartBeatReq
    (s : SessionId) (w : World A) :
    Steady s w (recvHeartBeatReq env w s).world :=
  (quiet_recvHeartBeatReq env w s).steady s

theorem steady_runHandler
    (s : SessionId) (cur : LinkId) (h : Handler A) (w : World A)
    (packet : Packet) :
    Steady s w (runHandler env cur h w s packet).world := by
  cases h with
  | connectReq =>
      exact steady_recvConnectReq env s cur w
  | reconnectReq =>
      exact steady_recvReconnectReq env s cur w packet
  | heartBeatReq =>
      exact steady_recvHeartBeatReq env s w
  | user u =>
      exact steady_react env s cur w _

theorem steady_noHandler
    (s : SessionId) (cur : LinkId) (w : World A) :
    Steady s w (noHandler env cur w s).world := by
  cases hlink : (w.sessions s).link with
  | none =>
      simp only [noHandler, hlink]
      exact Steady.refl s w
  | some l =>
      simp only [noHandler, hlink]
      exact steady_onError env s cur w l

/-- Whatever handler a message has, the dispatcher is steady. -/
theorem steady_dispatch
    (s : SessionId) (cur : LinkId) (w : World A) (packet : Packet) :
    Steady s (w.log (.dispatch s packet))
      (dispatch env cur w s packet).world := by
  simp only [dispatch]
  cases findHandler env (w.log (.dispatch s packet)) s packet.getID with
  | none =>
      exact steady_noHandler env s cur _
  | some found =>
      rw [Outcome.caught_world]
      exact ((quiet_app _ found.2).steady s).trans
        (steady_runHandler env s cur found.1 _ packet)

end SteadyHandlers

end Tcp
end Gamnet
