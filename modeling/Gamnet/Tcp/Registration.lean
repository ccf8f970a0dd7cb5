import Gamnet.Tcp.Segmentation

/-!
# Single frames and registered sessions

A read that ends with a frame leaves an empty packet (`onRecvMsg_single`). Its
first use is Connect_Req: behind it the session is in the registry under its
key, with a fresh token, and stays there while other links are accepted.
-/

namespace Gamnet
namespace Tcp

section Waiting

variable {A : Type} (env : Env A)

/-- What a call that waits for more bytes leaves alone. -/
structure Idle (s : SessionId) (w w' : World A) : Prop where
  registry : w'.registry = w.registry
  tokens : w'.tokens = w.tokens
  sessions : ∀ t, t ≠ s → w'.sessions t = w.sessions t
  session : ∃ time,
    w'.sessions s = { w.sessions s with expireTime := time }
  trace : w'.trace = w.trace

namespace Idle

theorem refl
    (s : SessionId) (w : World A) :
    Idle s w w :=
  ⟨rfl, rfl, fun _ _ => rfl, ⟨_, rfl⟩, rfl⟩

theorem trans
    {s : SessionId} {w₁ w₂ w₃ : World A}
    (h₁ : Idle s w₁ w₂)
    (h₂ : Idle s w₂ w₃) :
    Idle s w₁ w₃ := by
  obtain ⟨time₁, htime₁⟩ := h₁.session
  obtain ⟨time₂, htime₂⟩ := h₂.session
  refine ⟨h₂.registry.trans h₁.registry, h₂.tokens.trans h₁.tokens,
    fun t ht => (h₂.sessions t ht).trans (h₁.sessions t ht), ⟨time₂, ?_⟩,
    h₂.trace.trans h₁.trace⟩
  rw [htime₂, htime₁]

theorem msgSeq
    {s : SessionId} {w w' : World A}
    (h : Idle s w w') :
    (w'.sessions s).msgSeq = (w.sessions s).msgSeq := by
  obtain ⟨time, htime⟩ := h.session
  rw [htime]

theorem sessionKey
    {s : SessionId} {w w' : World A}
    (h : Idle s w w') :
    (w'.sessions s).sessionKey = (w.sessions s).sessionKey := by
  obtain ⟨time, htime⟩ := h.session
  rw [htime]

end Idle

theorem idle_touch
    (w : World A) (s : SessionId) :
    Idle s w (touch env w s) := by
  simp only [touch]
  cases env.kind with
  | tcp =>
      refine ⟨rfl, rfl, ?_, ⟨w.now, ?_⟩, rfl⟩
      · intro t ht
        rw [World.setSession_sessions, Function.update_of_ne ht]
      · rw [World.setSession_sessions, Function.update_self]
  | router =>
      exact Idle.refl s w

variable {w : World A} {l : LinkId} {s : SessionId}

/-- The start of the loop of a call: the bytes that were read are queued. -/
theorem onRecvMsg_start
    {u bytes : List UInt8}
    (h : Receiving w l s u)
    (hfits : u.length + bytes.length ≤ Buffer.maxSize) :
    ∃ w₀, onRecvMsg env l w bytes = recvLoop env l s w₀ ∧
      Receiving w₀ l s (u ++ bytes) ∧
      Idle s w w₀ := by
  have htouch := receiving_touch env h
  obtain ⟨packet, happend, hholds⟩ := htouch.toHolds.append hfits
  have hidle := idle_touch env w s
  exact ⟨_, onRecvMsg_of_append env h.session happend,
    ⟨hholds, htouch.session, htouch.link⟩,
    ⟨hidle.registry, hidle.tokens, hidle.sessions, hidle.session,
      hidle.trace⟩⟩

/-- A read that completes no frame. -/
theorem onRecvMsg_waiting
    {u bytes : List UInt8}
    (h : Receiving w l s u)
    (hfits : u.length + bytes.length ≤ Buffer.maxSize)
    (hwait : frameFormat.Waiting (u ++ bytes)) :
    ∃ w', onRecvMsg env l w bytes = .ok w' ∧
      Receiving w' l s (u ++ bytes) ∧
      Idle s w w' := by
  obtain ⟨w₀, hcall, h₀, hidle⟩ := onRecvMsg_start env h hfits
  have hround := recvRound_of_waiting env l h₀.toHolds hwait
  refine ⟨w₀, ?_, h₀, hidle⟩
  rw [hcall]
  simp only [recvLoop, WhileLoop.run_done hround]

/-- Reads that together are shorter than the frame that they begin. -/
theorem onRecvMsgs_waiting
    {u : List UInt8} {reads : List (List UInt8)} {f : Frame}
    (h : Receiving w l s u)
    (hinit : u ++ reads.flatten <+: f.bytes)
    (hshort : (u ++ reads.flatten).length < f.length) :
    ∃ w', onRecvMsgs env l w reads = .ok w' ∧
      Receiving w' l s (u ++ reads.flatten) ∧
      Idle s w w' := by
  induction reads generalizing w u with
  | nil =>
      rw [List.flatten_nil, List.append_nil]
      exact ⟨w, rfl, h, Idle.refl s w⟩
  | cons bytes reads ih =>
      rw [List.flatten_cons, ← List.append_assoc] at hinit hshort ⊢
      have hinit' : u ++ bytes <+: f.bytes :=
        (List.prefix_append _ _).trans hinit
      have hlength : (u ++ bytes).length < f.length := by
        rw [@List.length_append _ (u ++ bytes)] at hshort
        exact Nat.lt_of_le_of_lt (Nat.le_add_right _ _) hshort
      have hproper : u ++ bytes ≠ f.bytes := by
        intro heq
        rw [heq] at hlength
        exact absurd hlength (Nat.lt_irrefl _)
      have hfits : u.length + bytes.length ≤ Buffer.maxSize := by
        rw [← List.length_append]
        exact Nat.le_of_lt (Nat.lt_trans hlength f.length_lt)
      obtain ⟨w₁, hcall, h₁, hidle₁⟩ := onRecvMsg_waiting env h hfits
        (f.isFrame.waiting_of_initial hinit' hproper)
      obtain ⟨w', hcalls, h', hidle'⟩ := ih h₁ hinit hshort
      refine ⟨w', ?_, h', hidle₁.trans hidle'⟩
      rw [onRecvMsgs_cons, hcall, Outcome.bind_ok, hcalls]

/-- A read that ends with the only frame that is queued: once the frame is
delivered, the packet is empty and the call returns. -/
theorem onRecvMsg_single
    {u bytes : List UInt8} {f : Frame}
    (h : Receiving w l s u)
    (hbytes : u ++ bytes = f.bytes) :
    ∃ w₀, Receiving w₀ l s (f.bytes ++ []) ∧ Idle s w w₀ ∧
      ∀ w₁, deliver env l w₀ s = .ok w₁ →
        ∃ w₂, onRecvMsg env l w bytes = .ok w₂ ∧
          Holds w₂ s [] ∧
          Advanced s w₁ w₂ ∧
          (w₂.sessions s).recvPacket = (w₁.sessions s).recvPacket := by
  have hfits : u.length + bytes.length ≤ Buffer.maxSize := by
    rw [← List.length_append, hbytes]
    exact Nat.le_of_lt f.length_lt
  obtain ⟨w₀, hcall, h₀, hidle⟩ := onRecvMsg_start env h hfits
  have hfront : Receiving w₀ l s (f.bytes ++ []) := by
    rw [List.append_nil, ← hbytes]
    exact h₀
  refine ⟨w₀, hfront, hidle, ?_⟩
  intro w₁ hdeliver
  rw [hcall]
  exact recvLoop_single env hfront.toHolds hdeliver

end Waiting

section Registered

variable {A : Type} (env : Env A)

theorem linkAnswer_keeps
    (w : World A) (l : LinkId) (m : Message) :
    (linkAnswer env w l m).sessions = w.sessions ∧
      (linkAnswer env w l m).registry = w.registry := by
  simp only [linkAnswer, createPacket]
  cases env.pool w.created with
  | none =>
      exact ⟨rfl, rfl⟩
  | some data =>
      exact ⟨rfl, rfl⟩

theorem sessionAnswer_keeps
    (w : World A) (s : SessionId) (m : Message) :
    (sessionAnswer env w s m).sessions = w.sessions ∧
      (sessionAnswer env w s m).registry = w.registry := by
  cases hlink : (w.sessions s).link with
  | none =>
      simp only [sessionAnswer, hlink, createPacket]
      cases env.pool w.created with
      | none =>
          exact ⟨rfl, rfl⟩
      | some data =>
          exact ⟨rfl, rfl⟩
  | some l =>
      simp only [sessionAnswer, hlink]
      exact linkAnswer_keeps env w l m

/-- A session that a client can reconnect to. -/
structure Registered (w : World A) (s : SessionId) (key : Nat)
    (token : String) : Prop where
  registry : w.registry key = some s
  sessionToken : (w.sessions s).sessionToken = token

/-- Behind Recv_Connect_Req a session whose key was free is registered with a
fresh token. -/
theorem registered_recvConnectReq
    (cur : LinkId) {w : World A} {s : SessionId} {l : LinkId}
    (hlink : (w.sessions s).link = some l)
    (hfree : w.registry (w.sessions s).sessionKey = none)
    (hidle : ∀ app, (env.onAccept app s).commands = []) :
    Registered (recvConnectReq env cur w s).world s (w.sessions s).sessionKey
      (env.token w.tokens (w.sessions s).sessionKey) := by
  have hkey : ((renewToken env w s).sessions s).sessionKey =
      (w.sessions s).sessionKey := by
    simp [renewToken]
  have hfree' : (renewToken env w s).registry (w.sessions s).sessionKey =
      none := hfree
  simp only [recvConnectReq, hlink, hkey, addSession, hfree']
  generalize hanswer : Message.connectAns _ _ _ _ = m
  generalize hadd : World.mk _ _ _ _ _ _ _ _ _ _ _ = w₁
  obtain ⟨hsessions, hregistry⟩ := sessionAnswer_keeps env w₁ s m
  have hreact : ∀ w₂ : World A, w₂.sessions = w₁.sessions →
      w₂.registry = w₁.registry →
      Registered (react env cur w₂ (env.onAccept w₂.app s)).world s
        (w.sessions s).sessionKey
        (env.token w.tokens (w.sessions s).sessionKey) := by
    intro w₂ hs hr
    have hworld : (react env cur w₂ (env.onAccept w₂.app s)).world =
        { w₂ with app := (env.onAccept w₂.app s).app } := by
      simp only [react, runCommands, hidle, List.foldl_nil]
      split
      · rfl
      · rfl
    rw [hworld]
    refine ⟨?_, ?_⟩
    · simp only [hr, ← hadd, Function.update_self]
    · simp only [hs, ← hadd]
      simp [renewToken]
  exact hreact _ hsessions hregistry

/-- Deliveries store the number of the frame, but keep the registration. -/
theorem Registered.storeSeq
    {w : World A} {s : SessionId} {key : Nat} {token : String}
    (h : Registered w s key token)
    (t : SessionId) (n : Nat) :
    Registered (storeSeq env w t n) s key token := by
  simp only [Tcp.storeSeq]
  cases env.kind with
  | tcp =>
      refine ⟨h.registry, ?_⟩
      rw [World.setSession_sessions]
      by_cases hst : s = t
      · subst hst
        rw [Function.update_self]
        exact h.sessionToken
      · rw [Function.update_of_ne hst]
        exact h.sessionToken
  | router =>
      exact h

theorem Registered.advanced
    {w w' : World A} {s t : SessionId} {key : Nat} {token : String}
    (h : Registered w s key token)
    (hadvanced : Advanced t w w') :
    Registered w' s key token := by
  refine ⟨?_, ?_⟩
  · rw [hadvanced.registry, h.registry]
  · obtain ⟨q, hq⟩ := hadvanced.session
    rw [hq]
    by_cases hst : s = t
    · subst hst
      rw [Function.update_self]
      exact h.sessionToken
    · rw [Function.update_of_ne hst]
      exact h.sessionToken

/-- The call that reads the last byte of a Connect_Req and nothing behind
it. -/
theorem onRecvMsg_connect
    {w : World A} {l : LinkId} {s : SessionId} {u bytes : List UInt8}
    {f : Frame}
    (htcp : env.kind = .tcp)
    (hhandler : env.handlers msgIdConnectReq = some .connectReq)
    (hidle : ∀ app, (env.onAccept app s).commands = [])
    (h : Receiving w l s u)
    (hbytes : u ++ bytes = f.bytes)
    (hid : f.id = msgIdConnectReq)
    (hseq : (w.sessions s).msgSeq < f.seq)
    (hfree : w.registry (w.sessions s).sessionKey = none) :
    ∃ w', onRecvMsg env l w bytes = .ok w' ∧
      Registered w' s (w.sessions s).sessionKey
        (env.token w.tokens (w.sessions s).sessionKey) ∧
      (w'.sessions s).msgSeq = f.seq := by
  obtain ⟨w₀, hfront, hwait, hreturn⟩ := onRecvMsg_single env h hbytes
  have hshows := shows_of_front hfront.readCursor hfront.unread
  have hpasses : passes env w₀ s (w₀.recvPacket s) = true := by
    have hfirst := passes_of_front env hfront.toHolds
    rw [← hwait.msgSeq] at hseq
    simp only [Kind.accepts, htcp, hseq, decide_true] at hfirst
    exact hfirst
  have hfind : findHandler env ((w₀.log (.examine s (w₀.recvPacket s))).log
      (.dispatch s (w₀.recvPacket s))) s (w₀.recvPacket s).getID =
        some (.connectReq, w₀.app) := by
    simp only [findHandler, hshows.getID, hid, hhandler, getHandler]
    rfl
  have hregistered := registered_recvConnectReq env l
    (w := { (w₀.log (.examine s (w₀.recvPacket s))).log
      (.dispatch s (w₀.recvPacket s)) with app := w₀.app })
    hfront.link
    (by
      show w₀.registry (w₀.sessions s).sessionKey = none
      rw [hwait.registry, hwait.sessionKey, hfree])
    hidle
  obtain ⟨w₁, hreturns⟩ := runHandler_returns env l .connectReq
    (w := { (w₀.log (.examine s (w₀.recvPacket s))).log
      (.dispatch s (w₀.recvPacket s)) with app := w₀.app })
    (w₀.recvPacket s) hfront.link
  have hworld := Outcome.caught_world (recvConnectReq env l
    { (w₀.log (.examine s (w₀.recvPacket s))).log
      (.dispatch s (w₀.recvPacket s)) with app := w₀.app } s)
  simp only [runHandler] at hreturns
  have hdispatch : dispatch env l (w₀.log (.examine s (w₀.recvPacket s))) s
      (w₀.recvPacket s) = .ok w₁ := by
    simp only [dispatch, hfind, runHandler]
    exact hreturns
  rw [hreturns, Outcome.world_ok] at hworld
  rw [← hworld] at hregistered
  have hdeliver : deliver env l w₀ s =
      .ok (storeSeq env w₁ s (w₀.recvPacket s).getSEQ) := by
    rw [deliver_of_passes env hpasses, hdispatch, Outcome.bind_ok]
  obtain ⟨w₂, hcall, _, hadvanced, _⟩ := hreturn _ hdeliver
  refine ⟨w₂, hcall, ?_, ?_⟩
  · have hfinal := (hregistered.storeSeq env s
      (w₀.recvPacket s).getSEQ).advanced hadvanced
    rw [← hwait.sessionKey, ← hwait.tokens]
    exact hfinal
  · rw [hadvanced.msgSeq_eq]
    simp only [storeSeq, htcp, World.setSession_sessions,
      Function.update_self]
    exact hshows.getSEQ

/-- Accepting a link leaves the registry and the other sessions alone. -/
theorem onAccept_others
    {w w' : World A} {l : LinkId} {s : SessionId}
    (haccept : onAccept env (openLink w l) l (some s) = .ok w') :
    w'.registry = w.registry ∧
      w'.tokens = w.tokens ∧
      (w'.sessions s).sessionKey = w.keys + 1 ∧
      ∀ t, t ≠ s → w'.sessions t = w.sessions t := by
  cases hpool : env.pool w.created with
  | none =>
      simp only [onAccept, createPacket, openLink, World.setLink,
        hpool] at haccept
      cases haccept
  | some data =>
      simp only [onAccept, createPacket, openLink, World.setLink,
        hpool] at haccept
      cases haccept
      refine ⟨?_, ?_, ?_, ?_⟩
      · simp [attachSession, attachClosure, releaseSession, World.setSession,
          World.setLink, World.setPacket, World.log]
      · simp [attachSession, attachClosure, releaseSession, World.setSession,
          World.setLink, World.setPacket, World.log]
      · simp [attachSession, attachClosure, releaseSession, World.setSession,
          World.setLink, World.setPacket, World.log]
      · intro t ht
        simp [attachSession, attachClosure, releaseSession, World.setSession,
          World.setLink, World.setPacket, World.log, ht]

theorem Registered.accept
    {w w' : World A} {l : LinkId} {s t : SessionId} {key : Nat}
    {token : String}
    (h : Registered w s key token)
    (hne : s ≠ t)
    (haccept : onAccept env (openLink w l) l (some t) = .ok w') :
    Registered w' s key token := by
  obtain ⟨hregistry, _, _, hothers⟩ := onAccept_others env haccept
  refine ⟨?_, ?_⟩
  · rw [hregistry, h.registry]
  · rw [hothers s hne, h.sessionToken]

end Registered

section Rejoining

variable {A : Type}

/-- A Connect_Req as the client writes it. -/
def connectReq : Frame :=
  Frame.write 1 msgIdConnectReq [] emptyBody_fits

/-- The steps of a client that connects and opens a second link. -/
def rejoinSteps : List Step :=
  [.accept 0 (some 0), .recv 0 connectReq.bytes, .accept 1 (some 1)]

/-- The manager behind these steps. -/
def World.rejoining (env : Env A) (app : A) : World A :=
  (run env (World.initial app) rejoinSteps).world

/-- Link 1 was just accepted, next to a session that is registered under
key 1. -/
structure Rejoining (token : String) (w : World A) : Prop where
  receiving : Receiving w 1 1 []
  msgSeq : (w.sessions 1).msgSeq = 0
  registered : Registered w 0 1 token
  registeredSeq : (w.sessions 0).msgSeq = 1

theorem run_rejoinSteps
    (token : Nat → Nat → String) (parse : List UInt8 → ReconnectReq)
    (user : Nat → Option (UserHandler A)) (app : A) :
    run (Env.listen token parse user) (World.initial app) rejoinSteps =
        .ok (World.rejoining (Env.listen token parse user) app) ∧
      Rejoining (token 0 1)
        (World.rejoining (Env.listen token parse user) app) := by
  obtain ⟨w₁, haccept₁, h₁, _, hseq₁⟩ :=
    onAccept_receiving (Env.listen token parse user) (World.initial app) 0 0
      rfl
  obtain ⟨hregistry, htokens, hkey, _⟩ :=
    onAccept_others (Env.listen token parse user) haccept₁
  have hkey₁ : (w₁.sessions 0).sessionKey = 1 := hkey
  obtain ⟨w₂, hcall, hregistered, hseq₂⟩ :=
    onRecvMsg_connect (Env.listen token parse user) (f := connectReq) rfl rfl
      (fun _ => rfl) h₁ (List.nil_append _) (by decide)
      (by
        rw [hseq₁]
        decide)
      (by
        rw [hregistry]
        rfl)
  obtain ⟨w₃, haccept₃, h₃, _, hseq₃⟩ :=
    onAccept_receiving (Env.listen token parse user) w₂ 1 1 rfl
  obtain ⟨_, _, _, hothers⟩ :=
    onAccept_others (Env.listen token parse user) haccept₃
  rw [hkey₁, htokens] at hregistered
  have hrun : run (Env.listen token parse user) (World.initial app)
      rejoinSteps = .ok w₃ := by
    simp only [rejoinSteps, run_cons, step, haccept₁, Outcome.bind_ok, hcall,
      haccept₃]
    rfl
  simp only [World.rejoining, hrun, Outcome.world_ok, true_and]
  refine ⟨h₃, hseq₃, hregistered.accept _ (by decide) haccept₃, ?_⟩
  rw [hothers 0 (by decide), hseq₂]
  decide

end Rejoining

end Tcp
end Gamnet
