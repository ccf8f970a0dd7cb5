import Gamnet.Lib.Transition
import Gamnet.Tcp.Ties

/-!
# The idle sweep and reconnects under way

The sweep of SessionManager takes the sessions without a link whose last read is too
long ago. Recv_Reconnect_Req holds the session that it found outside the lock while it
compares the token, detaches the session from its old link and attaches it to its own.
Here each of these is a step of its own; together they are `recvReconnectReq`
(`reconnect_eq`).

A session object that goes back to its pool and comes again counts as a new session.
-/

namespace Gamnet
namespace Tcp

section Reconnect

variable {A : Type} (env : Env A)

/-- The rest of Recv_Reconnect_Req behind the detaching of the old link. -/
def attachOther
    (cur : LinkId) (w : World A) (s : SessionId) (l : LinkId) (other : SessionId) :
    World A :=
  let w :=
    w.setSession other
      { w.sessions other with recvPacket := (w.sessions s).recvPacket }
  let w := renewToken env w other
  let w := attachSession cur w l (some other)
  let x := w.sessions other
  linkAnswer env w l
    (.reconnectAns (w.sessions s).msgSeq x.sessionKey x.sessionToken x.msgSeq)

theorem acceptReconnect_eq
    (cur : LinkId) (w : World A) (s : SessionId) (l : LinkId) (other : SessionId) :
    acceptReconnect env cur w s l other =
      attachOther env cur (leaveLink cur w other) s l other := by
  rfl

/-- How far a Recv_Reconnect_Req is. -/
inductive Stage
  | found
  | checked
  | left
deriving DecidableEq

/-- A Recv_Reconnect_Req under way: its session and the link of that session, the
session that it found, and the token of the request. -/
structure Reconnect where
  session : SessionId
  link : LinkId
  other : SessionId
  token : String
  stage : Stage

/-- A manager with the reconnects under way on the strands of the links, the sessions
that were accepted, and for each sweep the entries of the registry that it took. -/
structure Sweeping (A : Type) where
  world : World A
  reconnects : LinkId → Option Reconnect
  accepted : List SessionId
  swept : List (Nat → Option SessionId)

namespace Sweeping

/-- Nothing is accepted yet. -/
def start (app : A) : Sweeping A where
  world := World.initial app
  reconnects := fun _ => none
  accepted := []
  swept := []

/-- The sweep destroyed the session and dropped it from the registry. -/
def Destroyed (w : Sweeping A) (s : SessionId) : Prop :=
  ∃ taken ∈ w.swept, ∃ key, taken key = some s

/-- The test of the sweep. -/
def idle (w : World A) (keepAlive : Nat) (s : SessionId) : Bool :=
  (w.sessions s).link = none && (w.sessions s).expireTime + keepAlive < w.now

/-- The callback of the timer of SessionManager. -/
def sweep (w : Sweeping A) (keepAlive : Nat) : Sweeping A :=
  { w with
    world :=
      { w.world with
        registry := fun key =>
          (w.world.registry key).filter fun s => !idle w.world keepAlive s }
    swept := w.swept ++
      [fun key => (w.world.registry key).filter (idle w.world keepAlive)] }

/-- FindSession on behalf of the session of link l. -/
def find (w : Sweeping A) (l : LinkId) (key : Nat) (token : String) : Option (Sweeping A) :=
  match (w.world.links l).session with
  | none => none
  | some s =>
      match (w.world.sessions s).link with
      | none => none
      | some k =>
          match w.world.registry key with
          | none =>
              some { w with world := rejectReconnect env l w.world s k .connectTimeoutError }
          | some other =>
              some
                { w with
                  reconnects :=
                    Function.update w.reconnects l (some ⟨s, k, other, token, .found⟩) }

/-- The token check. -/
def check (w : Sweeping A) (l : LinkId) (r : Reconnect) : Sweeping A :=
  if (w.world.sessions r.other).sessionToken ≠ r.token then
    { w with
      world := rejectReconnect env l w.world r.session r.link .invalidSessionTokenError
      reconnects := Function.update w.reconnects l none }
  else
    { w with
      reconnects := Function.update w.reconnects l (some { r with stage := .checked }) }

/-- The old link of the session is told to detach it. -/
def leave (w : Sweeping A) (l : LinkId) (r : Reconnect) : Sweeping A :=
  { w with
    world := leaveLink l w.world r.other
    reconnects := Function.update w.reconnects l (some { r with stage := .left }) }

/-- The session is attached, and the answer sent. -/
def attach (w : Sweeping A) (l : LinkId) (r : Reconnect) : Sweeping A :=
  { w with
    world := attachOther env l w.world r.session r.link r.other
    reconnects := Function.update w.reconnects l none }

/-- The next step of a Recv_Reconnect_Req. -/
def reconnect (w : Sweeping A) (l : LinkId) (r : Reconnect) : Sweeping A :=
  match r.stage with
  | .found => w.check env l r
  | .checked => w.leave l r
  | .left => w.attach env l r

/-- Recv_Connect_Req up to OnAccept. -/
def connect (w : Sweeping A) (s : SessionId) : Sweeping A :=
  let world := registerSession env w.world s
  let x := world.sessions s
  { w with
    world := sessionAnswer env world s
      (.connectAns x.msgSeq ErrorCode.success.value x.sessionKey x.sessionToken) }

/-- A link is accepted, a read touches its session, a Connect_Req or Reconnect_Req is
handled, a queued closure runs, a strand is taken or left, a link is closed, the
registry is swept, or time goes on. -/
inductive Step
  | accept (l : LinkId) (s : SessionId)
  | read (l : LinkId)
  | connect (l : LinkId)
  | find (l : LinkId) (key : Nat) (token : String)
  | reconnect (l : LinkId)
  | closure (l : LinkId)
  | strand (l : LinkId) (busy : Bool)
  | close (l : LinkId)
  | sweep
  | tick (now : Nat)

/-- One step. While a Recv_Reconnect_Req is under way, its strand does nothing else. -/
def step (keepAlive : Nat) (w : Sweeping A) : Step → Option (Sweeping A)
  | .accept l s =>
      if (w.world.links l).isOpen = false ∧ (w.world.links l).closures = [] ∧
          w.reconnects l = none ∧ s ∉ w.accepted then
        some
          { w with
            world := (onAccept env (openLink w.world l) l (some s)).world
            accepted := s :: w.accepted }
      else none
  | .read l =>
      match w.reconnects l, (w.world.links l).session with
      | none, some s => some { w with world := touch env w.world s }
      | _, _ => none
  | .connect l =>
      match w.reconnects l, (w.world.links l).session with
      | none, some s => some (w.connect env s)
      | _, _ => none
  | .find l key token =>
      if w.reconnects l = none ∧ (w.world.links l).busy = true then w.find env l key token
      else none
  | .reconnect l =>
      match w.reconnects l with
      | none => none
      | some r => some (w.reconnect env l r)
  | .closure l =>
      if w.reconnects l = none then some { w with world := runClosure w.world l }
      else none
  | .strand l busy =>
      if w.reconnects l = none ∧ (busy = true ∨ (w.world.links l).closures = []) then
        some
          { w with world := w.world.setLink l { w.world.links l with busy := busy } }
      else none
  | .close l =>
      if w.reconnects l = none then some { w with world := onError env l w.world l }
      else none
  | .sweep => if keepAlive = 0 then none else some (w.sweep keepAlive)
  | .tick now => some { w with world := { w.world with now := now } }

/-- The steps in order. -/
abbrev run (keepAlive : Nat) : Sweeping A → List Step → Option (Sweeping A) :=
  Transition.run (step env keepAlive)

/-- No session that is attached to a link was destroyed. -/
def Spared (w : Sweeping A) : Prop :=
  ∀ l s, (w.world.links l).session = some s → ¬ w.Destroyed s

/-- A reconnect with the token of the session that it found, or past the check. -/
def Granted (w : Sweeping A) (r : Reconnect) : Prop :=
  r.stage = .found → (w.world.sessions r.other).sessionToken = r.token

/-- A reconnect that is granted, or a queued closure, is about to attach the session. -/
def Awaited (w : Sweeping A) (s : SessionId) : Prop :=
  (∃ l r, w.reconnects l = some r ∧ w.Granted r ∧ r.other = s) ∨
    ∃ l, some s ∈ (w.world.links l).closures

/-- The link whose strand a step runs on. -/
def Step.cur : Step → LinkId
  | .accept l _ | .read l | .connect l | .find l _ _ | .reconnect l | .closure l
  | .strand l _ | .close l => l
  | .sweep | .tick _ => 0

/-- The link whose AttachSession a step calls or runs. -/
def asked (w : Sweeping A) : Step → Option LinkId
  | .find l key _ =>
      match w.world.registry key with
      | none => (w.world.links l).session.bind fun s => (w.world.sessions s).link
      | some _ => none
  | .reconnect l =>
      match w.reconnects l with
      | none => none
      | some r =>
          match r.stage with
          | .found =>
              if (w.world.sessions r.other).sessionToken ≠ r.token then some r.link else none
          | .checked => (w.world.sessions r.other).link
          | .left => some r.link
  | .closure l | .close l => some l
  | _ => none

/-- No other link has the session of the link. -/
def Sole (w : World A) (l : LinkId) : Prop :=
  ∀ s k, (w.links l).session = some s → (w.links k).session = some s → k = l

/-- The sweep finds no session idle that is about to be attached. A link that leaves its
session is the only one that has it. -/
def Timely (keepAlive : Nat) (w : Sweeping A) (e : Step) : Prop :=
  (e = .sweep → ∀ s, w.Awaited s → idle w.world keepAlive s = false) ∧
    ∀ l, w.asked e = some l → l = e.cur ∨ (w.world.links l).busy = false →
      Sole w.world l

end Sweeping

section Held

/-- Every session that has a link, is about to get one or is registered is one of P, and
one that has a link also points to one. -/
structure Held (P : SessionId → Prop) (w : World A) : Prop where
  linked : ∀ l s, (w.links l).session = some s → (w.sessions s).link ≠ none
  session : ∀ l s, (w.links l).session = some s → P s
  closures : ∀ l s, some s ∈ (w.links l).closures → P s
  registry : ∀ key s, w.registry key = some s → P s

namespace Held

variable {P : SessionId → Prop} {w w' : World A}

theorem mono
    {Q : SessionId → Prop}
    (h : Held P w)
    (hPQ : ∀ s, P s → Q s) :
    Held Q w where
  linked := h.linked
  session := fun l s hs => hPQ s (h.session l s hs)
  closures := fun l s hs => hPQ s (h.closures l s hs)
  registry := fun key s hs => hPQ s (h.registry key s hs)

/-- The same attachments, and no new entry in the registry. -/
theorem congr
    (h : Held P w)
    (hsession : ∀ l, (w'.links l).session = (w.links l).session)
    (hclosures : ∀ l, (w'.links l).closures = (w.links l).closures)
    (hlink : ∀ s, (w'.sessions s).link = (w.sessions s).link)
    (hregistry : ∀ key s, w'.registry key = some s → P s) :
    Held P w' where
  linked := fun l s hs => by
    rw [hlink]
    exact h.linked l s (by rw [← hsession]; exact hs)
  session := fun l s hs => h.session l s (by rw [← hsession]; exact hs)
  closures := fun l s hs => h.closures l s (by rw [← hclosures]; exact hs)
  registry := hregistry

theorem still
    (h : Held P w)
    (hstill : Still w w') :
    Held P w' :=
  h.congr hstill.session hstill.closures hstill.link
    (fun key s hs => h.registry key s (by rw [← hstill.registry]; exact hs))

theorem quiet
    (h : Held P w)
    (hquiet : Quiet w w')
    (hregistry : ∀ key s, w'.registry key = some s → P s) :
    Held P w' :=
  h.congr (fun l => by rw [hquiet.links]) (fun l => by rw [hquiet.links]) hquiet.link hregistry

/-- A link keeps its session. -/
theorem setLink
    {l : LinkId} {x : Link}
    (h : Held P w)
    (hsession : x.session = (w.links l).session)
    (hclosures : ∀ s, some s ∈ x.closures → P s) :
    Held P (w.setLink l x) := by
  have hsame : ∀ k, ((w.setLink l x).links k).session = (w.links k).session := by
    intro k
    rw [World.setLink_links]
    by_cases hk : k = l
    · rw [hk, Function.update_self, hsession]
    · rw [Function.update_of_ne hk]
  refine ⟨?_, ?_, ?_, h.registry⟩
  · intro k s hs
    exact h.linked k s (by rw [← hsame]; exact hs)
  · intro k s hs
    exact h.session k s (by rw [← hsame]; exact hs)
  · intro k s hs
    rw [World.setLink_links] at hs
    by_cases hk : k = l
    · rw [hk, Function.update_self] at hs
      exact hclosures s hs
    · rw [Function.update_of_ne hk] at hs
      exact h.closures k s hs

/-- A link that is the only one to have its session gets another, or none. -/
theorem attachClosure
    {l : LinkId} {session : Option SessionId}
    (h : Held P w)
    (hsole : Sweeping.Sole w l)
    (hnew : ∀ s, session = some s → P s) :
    Held P (attachClosure w l session) := by
  refine
    { linked := ?_, session := ?_, closures := ?_, registry := ?_ }
  · intro k s hs
    rw [links_attachClosure] at hs
    rw [link_attachClosure]
    split
    · simp
    · rename_i hne
      by_cases hk : k = l
      · subst hk
        rw [Function.update_self] at hs
        exact absurd hs hne
      · rw [Function.update_of_ne hk] at hs
        rw [if_neg (fun hold => hk (hsole s k hold hs))]
        exact h.linked k s hs
  · intro k s hs
    rw [links_attachClosure] at hs
    by_cases hk : k = l
    · subst hk
      rw [Function.update_self] at hs
      exact hnew s hs
    · rw [Function.update_of_ne hk] at hs
      exact h.session k s hs
  · intro k s hs
    rw [links_attachClosure] at hs
    by_cases hk : k = l
    · subst hk
      rw [Function.update_self] at hs
      exact h.closures k s hs
    · rw [Function.update_of_ne hk] at hs
      exact h.closures k s hs
  · intro key s hs
    rw [(sameSessions_attachClosure w l session).registry] at hs
    exact h.registry key s hs

theorem attachSession
    {cur l : LinkId} {session : Option SessionId}
    (h : Held P w)
    (hsole : l = cur ∨ (w.links l).busy = false → Sweeping.Sole w l)
    (hnew : ∀ s, session = some s → P s) :
    Held P (attachSession cur w l session) := by
  simp only [Tcp.attachSession]
  split
  · rename_i hruns
    exact h.attachClosure (hsole hruns) hnew
  · refine h.setLink rfl ?_
    intro s hs
    rw [List.mem_append, List.mem_singleton] at hs
    rcases hs with hold | hlast
    · exact h.closures l s hold
    · exact hnew s hlast.symm

variable (env : Env A)

theorem rejectReconnect
    {cur l : LinkId} {s : SessionId} {code : ErrorCode}
    (h : Held P w)
    (hsole : l = cur ∨ (w.links l).busy = false → Sweeping.Sole w l) :
    Held P (rejectReconnect env cur w s l code) := by
  have hdetached : Held P (Tcp.attachSession cur w l none) :=
    h.attachSession hsole (by intro t ht; cases ht)
  exact hdetached.still (still_linkAnswer env _ l _)

theorem leaveLink
    {cur : LinkId} {other : SessionId}
    (h : Held P w)
    (hsole : ∀ l, (w.sessions other).link = some l →
      l = cur ∨ (w.links l).busy = false → Sweeping.Sole w l) :
    Held P (leaveLink cur w other) := by
  simp only [Tcp.leaveLink]
  split
  · exact h
  · rename_i l hl
    exact h.attachSession (hsole l hl) (by intro t ht; cases ht)

theorem attachOther
    {cur l : LinkId} {s other : SessionId}
    (h : Held P w)
    (hsole : l = cur ∨ (w.links l).busy = false → Sweeping.Sole w l)
    (hother : P other) :
    Held P (attachOther env cur w s l other) := by
  have hpacket : Held P (w.setSession other
      { w.sessions other with recvPacket := (w.sessions s).recvPacket }) :=
    h.still (still_setSession w other _ rfl rfl rfl)
  have htoken := hpacket.quiet (quiet_renewToken env _ other) h.registry
  have hattached : Held P (Tcp.attachSession cur (renewToken env (w.setSession other
      { w.sessions other with recvPacket := (w.sessions s).recvPacket }) other) l
      (some other)) :=
    htoken.attachSession hsole (by intro t ht; cases ht; exact hother)
  exact hattached.still (still_linkAnswer env _ l _)

theorem onError
    {cur l : LinkId}
    (h : Held P w)
    (hsole : l = cur ∨ (w.links l).busy = false → Sweeping.Sole w l) :
    Held P (onError env cur w l) := by
  simp only [Tcp.onError]
  split
  · exact h
  · refine Held.still ?_ (still_close _ l)
    simp only [onClose]
    split
    · exact h
    · split
      · exact h.congr (fun _ => rfl) (fun _ => rfl) (fun _ => rfl) h.registry
      · rename_i s _ _ app _
        have hunregistered : Held P (unregister env { w with app := app } s) := by
          simp only [unregister]
          split
          · exact h.congr (fun _ => rfl) (fun _ => rfl) (fun _ => rfl) h.registry
          · refine h.congr (fun _ => rfl) (fun _ => rfl) (fun _ => rfl) ?_
            intro key t ht
            simp only [Function.update_apply] at ht
            split at ht
            · cases ht
            · exact h.registry key t ht
        have hlinks : (unregister env { w with app := app } s).links = w.links := by
          simp only [unregister]
          split
          · rfl
          · rfl
        refine hunregistered.attachSession ?_ (by intro t ht; cases ht)
        simpa only [Sweeping.Sole, hlinks] using hsole

theorem runClosure
    {l : LinkId}
    (h : Held P w)
    (hsole : Sweeping.Sole w l) :
    Held P (runClosure w l) := by
  simp only [Tcp.runClosure]
  split
  · exact h
  · rename_i session rest hclosures
    have hpopped : Held P (w.setLink l { w.links l with closures := rest }) := by
      refine h.setLink rfl ?_
      intro s hs
      exact h.closures l s (by rw [hclosures]; exact List.mem_cons_of_mem _ hs)
    refine hpopped.attachClosure ?_ ?_
    · intro s k hl hk
      rw [World.setLink_links] at hl hk
      rw [Function.update_self] at hl
      by_cases hkl : k = l
      · exact hkl
      · rw [Function.update_of_ne hkl] at hk
        exact hsole s k hl hk
    · rintro s rfl
      exact h.closures l s (by rw [hclosures]; exact List.mem_cons_self)

/-- A link object of the pool has no session. -/
theorem openLink
    (h : Held P w)
    (l : LinkId) :
    Held P (openLink w l) := by
  refine ⟨?_, ?_, ?_, h.registry⟩
  all_goals
    intro k s hs
    simp only [Tcp.openLink, World.setLink_links, Function.update_apply] at hs
    split at hs
  · cases hs
  · exact h.linked k s hs
  · cases hs
  · exact h.session k s hs
  · cases hs
  · exact h.closures k s hs

/-- A link without a session accepts a session that no link has. -/
theorem onAccept
    {l : LinkId} {s : SessionId}
    (h : Held P w)
    (hfresh : ∀ k, (w.links k).session ≠ some s)
    (hnone : (w.links l).session = none)
    (hs : P s) :
    Held P (onAccept env w l (some s)).world := by
  simp only [Tcp.onAccept]
  split
  · exact h
  · rename_i p v hcreate
    have hstill := still_createPacket env hcreate
    have hkeys : Held P { w with keys := w.keys + 1 } :=
      h.congr (fun _ => rfl) (fun _ => rfl) (fun _ => rfl) h.registry
    have hv := hkeys.still hstill
    have hsession : ∀ k, (v.links k).session = (w.links k).session := hstill.session
    refine Held.attachSession ?_ ?_ ?_
    · refine ⟨?_, hv.session, hv.closures, hv.registry⟩
      intro k t ht
      have ht' : (v.links k).session = some t := ht
      have hts : t ≠ s := by
        rintro rfl
        rw [hsession] at ht'
        exact hfresh k ht'
      rw [World.log_sessions, World.setSession_sessions, Function.update_of_ne hts]
      exact hv.linked k t ht'
    · intro _ t k ht _
      have ht' : (v.links l).session = some t := ht
      rw [hsession, hnone] at ht'
      cases ht'
    · intro t ht
      obtain rfl := Option.some.inj ht
      exact hs

end Held

/-- The sessions that are not accepted keep their tokens. -/
theorem sessionToken_onAccept
    (env : Env A)
    {w : World A} {l : LinkId} {s t : SessionId}
    (ht : t ≠ s) :
    ((onAccept env w l (some s)).world.sessions t).sessionToken =
      (w.sessions t).sessionToken := by
  simp only [onAccept]
  split
  · rfl
  · rename_i p v hcreate
    have hstill := still_createPacket env hcreate
    rw [Outcome.world_ok, (sameSessions_attachSession l _ l (some s)).sessionToken,
      World.log_sessions, World.setSession_sessions, Function.update_of_ne ht,
      hstill.sessionToken]

end Held

namespace Sweeping

variable (env : Env A) {keepAlive : Nat}

/-- Without another thread in between, the steps are Recv_Reconnect_Req. -/
theorem reconnect_eq
    {w : Sweeping A} {l k : LinkId} {s : SessionId} {packet : Packet} {key : Nat}
    {token : String}
    (hfree : w.reconnects l = none)
    (hbusy : (w.world.links l).busy = true)
    (hsession : (w.world.links l).session = some s)
    (hlink : (w.world.sessions s).link = some k)
    (hrequest : env.parse (reconnectText packet) = .request key token) :
    ∃ steps w', run env keepAlive w (.find l key token :: steps) = some w' ∧
      w'.reconnects = w.reconnects ∧
      recvReconnectReq env l w.world s packet = .ok w'.world := by
  have hdone : ∀ r, Function.update (Function.update w.reconnects l r) l none = w.reconnects := by
    intro r
    rw [Function.update_idem, ← hfree, Function.update_eq_self]
  have hfind : step env keepAlive w (.find l key token) = w.find env l key token :=
    if_pos ⟨hfree, hbusy⟩
  cases hkey : w.world.registry key with
  | none =>
      refine ⟨[], { w with world := rejectReconnect env l w.world s k .connectTimeoutError },
        ?_, rfl, ?_⟩
      · refine (Transition.run_cons ?_ []).trans rfl
        simp only [hfind, find, hsession, hlink, hkey]
      · simp only [recvReconnectReq, hlink, hrequest, hkey]
  | some other =>
      have hfound : step env keepAlive w (.find l key token) =
          some { w with
            reconnects := Function.update w.reconnects l (some ⟨s, k, other, token, .found⟩) } := by
        simp only [hfind, find, hsession, hlink, hkey]
      by_cases htoken : (w.world.sessions other).sessionToken = token
      · refine ⟨[.reconnect l, .reconnect l, .reconnect l],
          { w with world := acceptReconnect env l w.world s k other }, ?_, rfl, ?_⟩
        · refine (Transition.run_cons hfound _).trans ?_
          simp [Transition.run, step, reconnect, check, leave, attach, htoken,
            acceptReconnect_eq, hdone]
        · simp only [recvReconnectReq, hlink, hrequest, hkey, htoken, ne_eq, not_true,
            if_false]
      · refine ⟨[.reconnect l],
          { w with world := rejectReconnect env l w.world s k .invalidSessionTokenError },
          ?_, rfl, ?_⟩
        · refine (Transition.run_cons hfound _).trans ?_
          simp [Transition.run, step, reconnect, check, htoken, hdone]
        · simp only [recvReconnectReq, hlink, hrequest, hkey, htoken, ne_eq, not_false_iff,
            if_true]

/-- An accepted session that was not destroyed. -/
def Live (w : Sweeping A) (s : SessionId) : Prop :=
  s ∈ w.accepted ∧ ¬ w.Destroyed s

/-- What timely steps keep. -/
structure Inv (w : Sweeping A) : Prop where
  held : Held w.Live w.world
  other : ∀ l r, w.reconnects l = some r → r.other ∈ w.accepted ∧
    (w.Granted r → ¬ w.Destroyed r.other)
  destroyed : ∀ s, w.Destroyed s → s ∈ w.accepted

theorem Inv.spared
    {w : Sweeping A}
    (hw : w.Inv) :
    w.Spared :=
  fun l s hs => (hw.held.session l s hs).2

theorem start_inv
    (app : A) :
    (start app).Inv where
  held :=
    { linked := by intro l s hs; cases hs
      session := by intro l s hs; cases hs
      closures := by intro l s hs; cases hs
      registry := by intro key s hs; cases hs }
  other := by intro l r hr; cases hr
  destroyed := by rintro s ⟨taken, htaken, _⟩; cases htaken

/-- A step that destroys and accepts nothing: the sessions that it attaches, registers or
gives a token are live. -/
theorem Inv.next
    {w w' : Sweeping A}
    (hw : w.Inv)
    (haccepted : w'.accepted = w.accepted)
    (hswept : w'.swept = w.swept)
    (hheld : Held w.Live w'.world)
    (htoken : ∀ t, ¬ w.Live t →
      (w'.world.sessions t).sessionToken = (w.world.sessions t).sessionToken)
    (hreconnects : ∀ l r, w'.reconnects l = some r →
      w.reconnects l = some r ∨ w.Live r.other) :
    w'.Inv := by
  have hdestroyed : ∀ s, w'.Destroyed s ↔ w.Destroyed s := by
    intro s
    simp only [Destroyed, hswept]
  have hlive : ∀ s, w.Live s → w'.Live s := by
    intro s hs
    exact ⟨haccepted ▸ hs.1, fun h => hs.2 ((hdestroyed s).mp h)⟩
  refine { held := hheld.mono hlive, other := ?_, destroyed := ?_ }
  · intro l r hr
    rcases hreconnects l r hr with hold | hlive'
    · obtain ⟨hother, hgranted⟩ := hw.other l r hold
      refine ⟨haccepted ▸ hother, ?_⟩
      intro hgranted' hdead
      have hdead' := (hdestroyed r.other).mp hdead
      refine hgranted ?_ hdead'
      intro hfound
      rw [← htoken r.other (fun h => h.2 hdead')]
      exact hgranted' hfound
    · exact ⟨haccepted ▸ hlive'.1, fun _ hdead => hlive'.2 ((hdestroyed r.other).mp hdead)⟩
  · intro s hs
    rw [haccepted]
    exact hw.destroyed s ((hdestroyed s).mp hs)

/-- A step that changes the world only. -/
theorem Inv.world
    {w : Sweeping A} {world : World A}
    (hw : w.Inv)
    (hheld : Held w.Live world)
    (htoken : ∀ t, ¬ w.Live t →
      (world.sessions t).sessionToken = (w.world.sessions t).sessionToken) :
    Inv { w with world := world } :=
  hw.next rfl rfl hheld htoken (fun _ _ hr => Or.inl hr)

variable {w : Sweeping A}

theorem Inv.reject
    {l k : LinkId} {s : SessionId} {code : ErrorCode}
    (hw : w.Inv)
    (hsole : k = l ∨ (w.world.links k).busy = false → Sole w.world k) :
    Inv { w with world := rejectReconnect env l w.world s k code } := by
  refine hw.world (hw.held.rejectReconnect env hsole) ?_
  intro t _
  rw [rejectReconnect, (still_linkAnswer env _ k _).sessionToken,
    (sameSessions_attachSession l w.world k none).sessionToken]

theorem Inv.find
    {w' : Sweeping A} {l : LinkId} {key : Nat} {token : String}
    (hw : w.Inv)
    (htimely : w.Timely keepAlive (.find l key token))
    (hfind : w.find env l key token = some w') :
    w'.Inv := by
  simp only [Sweeping.find] at hfind
  split at hfind
  · cases hfind
  · rename_i s hsession
    split at hfind
    · cases hfind
    · rename_i k hlink
      split at hfind
      · rename_i hkey
        cases hfind
        refine hw.reject env ?_
        refine htimely.2 k ?_
        simp only [asked, hkey, hsession, Option.bind_some, hlink]
      · rename_i other hkey
        cases hfind
        refine hw.next rfl rfl hw.held (fun _ _ => rfl) ?_
        intro j r hr
        simp only [Function.update_apply] at hr
        split at hr
        · cases hr
          exact Or.inr (hw.held.registry key other hkey)
        · exact Or.inl hr

/-- The entry of a strand, or that of another one. -/
theorem reconnects_update
    {l j : LinkId} {x : Option Reconnect} {r : Reconnect}
    (hr : Function.update w.reconnects l x j = some r) :
    x = some r ∨ w.reconnects j = some r := by
  simp only [Function.update_apply] at hr
  split at hr
  · exact Or.inl hr
  · exact Or.inr hr

/-- A granted reconnect has a session that is live. -/
theorem Inv.live_of_granted
    {l : LinkId} {r : Reconnect}
    (hw : w.Inv)
    (hr : w.reconnects l = some r)
    (hgranted : w.Granted r) :
    w.Live r.other :=
  ⟨(hw.other l r hr).1, (hw.other l r hr).2 hgranted⟩

theorem Inv.check
    {l : LinkId} {r : Reconnect}
    (hw : w.Inv)
    (hr : w.reconnects l = some r)
    (hstage : r.stage = .found)
    (htimely : w.Timely keepAlive (.reconnect l)) :
    (w.check env l r).Inv := by
  simp only [Sweeping.check]
  split
  · rename_i htoken
    have hrejected := @Inv.reject _ env _ l r.link r.session .invalidSessionTokenError hw
      (htimely.2 r.link (by simp only [asked, hr, hstage]; exact if_pos htoken))
    refine hrejected.next rfl rfl hrejected.held (fun _ _ => rfl) ?_
    intro j x hx
    rcases reconnects_update hx with hnone | hold
    · cases hnone
    · exact Or.inl hold
  · rename_i htoken
    have hlive : w.Live r.other := hw.live_of_granted hr (fun _ => not_not.mp htoken)
    refine hw.next rfl rfl hw.held (fun _ _ => rfl) ?_
    intro j x hx
    rcases reconnects_update hx with hnew | hold
    · cases hnew
      exact Or.inr hlive
    · exact Or.inl hold

theorem Inv.leave
    {l : LinkId} {r : Reconnect}
    (hw : w.Inv)
    (hr : w.reconnects l = some r)
    (hstage : r.stage = .checked)
    (htimely : w.Timely keepAlive (.reconnect l)) :
    (w.leave l r).Inv := by
  have hlive : w.Live r.other :=
    hw.live_of_granted hr (fun hfound => by rw [hstage] at hfound; cases hfound)
  refine hw.next rfl rfl (hw.held.leaveLink ?_) ?_ ?_
  · intro k hk
    exact htimely.2 k (by simp only [asked, hr, hstage, hk])
  · intro t _
    simp only [Sweeping.leave, leaveLink]
    split
    · rfl
    · exact (sameSessions_attachSession l w.world _ none).sessionToken t
  · intro j x hx
    rcases reconnects_update hx with hnew | hold
    · cases hnew
      exact Or.inr hlive
    · exact Or.inl hold

theorem sessionToken_attachOther
    {cur l : LinkId} {world : World A} {s other t : SessionId}
    (ht : t ≠ other) :
    ((attachOther env cur world s l other).sessions t).sessionToken =
      (world.sessions t).sessionToken := by
  rw [attachOther, (still_linkAnswer env _ l _).sessionToken,
    (sameSessions_attachSession cur _ l (some other)).sessionToken]
  simp only [renewToken, World.setSession_sessions, Function.update_of_ne ht]

theorem Inv.attach
    {l : LinkId} {r : Reconnect}
    (hw : w.Inv)
    (hr : w.reconnects l = some r)
    (hstage : r.stage = .left)
    (htimely : w.Timely keepAlive (.reconnect l)) :
    (w.attach env l r).Inv := by
  have hlive : w.Live r.other :=
    hw.live_of_granted hr (fun hfound => by rw [hstage] at hfound; cases hfound)
  refine hw.next rfl rfl (hw.held.attachOther env ?_ hlive) ?_ ?_
  · exact htimely.2 r.link (by simp only [asked, hr, hstage])
  · intro t ht
    refine sessionToken_attachOther env ?_
    rintro rfl
    exact ht hlive
  · intro j x hx
    rcases reconnects_update hx with hnone | hold
    · cases hnone
    · exact Or.inl hold

theorem Inv.connect
    {l : LinkId} {s : SessionId}
    (hw : w.Inv)
    (hs : (w.world.links l).session = some s) :
    (w.connect env s).Inv := by
  have hlive := hw.held.session l s hs
  refine hw.world ?_ ?_
  · refine Held.still ?_ (still_sessionAnswer env _ s _)
    refine hw.held.quiet (quiet_registerSession env w.world s) ?_
    intro key t ht
    rw [registry_registerSession, Function.update_apply] at ht
    split at ht
    · obtain rfl := Option.some.inj ht
      cases hkey : w.world.registry (w.world.sessions s).sessionKey with
      | none =>
          exact hlive
      | some other =>
          exact hw.held.registry _ other hkey
    · exact hw.held.registry key t ht
  · intro t ht
    rw [(still_sessionAnswer env _ s _).sessionToken, sessions_registerSession env w.world]
    rintro rfl
    exact ht hlive

theorem sessionToken_onError
    (cur : LinkId) (world : World A) (l : LinkId) (t : SessionId) :
    ((onError env cur world l).sessions t).sessionToken =
      (world.sessions t).sessionToken := by
  simp only [onError]
  split
  · rfl
  · rw [(still_close _ l).sessionToken]
    simp only [onClose]
    split
    · rfl
    · split
      · rfl
      · rw [(sameSessions_attachSession cur _ l none).sessionToken]
        simp only [unregister]
        split
        · rfl
        · rfl

theorem sessionToken_runClosure
    (world : World A) (l : LinkId) (t : SessionId) :
    ((runClosure world l).sessions t).sessionToken = (world.sessions t).sessionToken := by
  simp only [runClosure]
  split
  · rfl
  · exact (sameSessions_attachClosure _ l _).sessionToken t

/-- A sweep takes sessions that no link has and that are not about to get one. -/
theorem Inv.sweep
    (hw : w.Inv)
    (htimely : w.Timely keepAlive .sweep) :
    (w.sweep keepAlive).Inv := by
  have hdestroyed : ∀ s, (w.sweep keepAlive).Destroyed s →
      w.Destroyed s ∨ idle w.world keepAlive s = true ∧ w.Live s := by
    rintro s ⟨taken, htaken, key, hkey⟩
    rcases List.mem_append.mp htaken with hold | hlast
    · exact Or.inl ⟨taken, hold, key, hkey⟩
    · obtain rfl := List.mem_singleton.mp hlast
      obtain ⟨hregistry, hidle⟩ := Option.filter_eq_some_iff.mp hkey
      exact Or.inr ⟨hidle, hw.held.registry key s hregistry⟩
  have hlive : ∀ s, w.Live s → idle w.world keepAlive s = false → (w.sweep keepAlive).Live s := by
    intro s hs hidle
    refine ⟨hs.1, ?_⟩
    intro hdead
    rcases hdestroyed s hdead with hold | ⟨htaken, _⟩
    · exact hs.2 hold
    · rw [hidle] at htaken
      cases htaken
  refine { held := ?_, other := ?_, destroyed := ?_ }
  · refine
      { linked := hw.held.linked, session := ?_, closures := ?_, registry := ?_ }
    · intro l s hs
      refine hlive s (hw.held.session l s hs) ?_
      simp [idle, hw.held.linked l s hs]
    · intro l s hs
      exact hlive s (hw.held.closures l s hs) (htimely.1 rfl s (Or.inr ⟨l, hs⟩))
    · intro key s hs
      obtain ⟨hregistry, hkept⟩ := Option.filter_eq_some_iff.mp hs
      exact hlive s (hw.held.registry key s hregistry) (by simpa using hkept)
  · intro l r hr
    obtain ⟨hother, hgranted⟩ := hw.other l r hr
    refine ⟨hother, ?_⟩
    intro hgranted'
    exact (hlive r.other ⟨hother, hgranted hgranted'⟩
      (htimely.1 rfl r.other (Or.inl ⟨l, r, hr, hgranted', rfl⟩))).2
  · intro s hs
    rcases hdestroyed s hs with hold | ⟨_, hlives⟩
    · exact hw.destroyed s hold
    · exact hlives.1

/-- A session that is accepted is live, and the others stay as they are. -/
theorem Inv.accept
    {l : LinkId} {s : SessionId}
    (hw : w.Inv)
    (hs : s ∉ w.accepted) :
    Inv { w with
      world := (onAccept env (openLink w.world l) l (some s)).world
      accepted := s :: w.accepted } := by
  have hfresh : ¬ w.Live s := fun h => hs h.1
  have hlive : ∀ t, w.Live t ∨ t = s → t ∈ s :: w.accepted ∧ ¬ w.Destroyed t := by
    rintro t (ht | rfl)
    · exact ⟨List.mem_cons_of_mem s ht.1, ht.2⟩
    · exact ⟨List.mem_cons_self, fun h => hs (hw.destroyed t h)⟩
  have hopen := hw.held.openLink l
  have haccept : Held (fun t => w.Live t ∨ t = s)
      (onAccept env (openLink w.world l) l (some s)).world :=
    (hopen.mono fun t ht => Or.inl ht).onAccept env
      (fun k hk => hfresh (hopen.session k s hk)) (by simp [openLink]) (Or.inr rfl)
  refine { held := haccept.mono hlive, other := ?_, destroyed := ?_ }
  · intro k r hr
    obtain ⟨hother, hgranted⟩ := hw.other k r hr
    refine ⟨List.mem_cons_of_mem s hother, ?_⟩
    intro hgranted'
    have hne : r.other ≠ s := fun heq => hs (heq ▸ hother)
    have htoken := @sessionToken_onAccept _ env (openLink w.world l) l s r.other hne
    refine hgranted ?_
    intro hfound
    exact htoken.symm.trans (hgranted' hfound)
  · intro t ht
    exact List.mem_cons_of_mem s (hw.destroyed t ht)

/-- A timely step keeps the invariant. -/
theorem Inv.step
    {w' : Sweeping A} {e : Step}
    (hw : w.Inv)
    (htimely : w.Timely keepAlive e)
    (hstep : step env keepAlive w e = some w') :
    w'.Inv := by
  cases e with
  | accept l s =>
      simp only [Sweeping.step] at hstep
      split at hstep
      · rename_i hguard
        cases hstep
        exact hw.accept env hguard.2.2.2
      · cases hstep
  | read l =>
      simp only [Sweeping.step] at hstep
      split at hstep
      · rename_i s _ hs
        cases hstep
        have hstill := still_touch env w.world s
        exact hw.world (hw.held.still hstill) (fun t _ => hstill.sessionToken t)
      · cases hstep
  | connect l =>
      simp only [Sweeping.step] at hstep
      split at hstep
      · rename_i s _ hs
        cases hstep
        exact hw.connect env hs
      · cases hstep
  | find l key token =>
      simp only [Sweeping.step] at hstep
      split at hstep
      · exact hw.find env htimely hstep
      · cases hstep
  | reconnect l =>
      simp only [Sweeping.step] at hstep
      split at hstep
      · cases hstep
      · rename_i r hr
        cases hstep
        cases hstage : r.stage with
        | found =>
            simp only [Sweeping.reconnect, hstage]
            exact hw.check env hr hstage htimely
        | checked =>
            simp only [Sweeping.reconnect, hstage]
            exact hw.leave hr hstage htimely
        | left =>
            simp only [Sweeping.reconnect, hstage]
            exact hw.attach env hr hstage htimely
  | closure l =>
      simp only [Sweeping.step] at hstep
      split at hstep
      · cases hstep
        exact hw.world (hw.held.runClosure (htimely.2 l rfl (Or.inl rfl)))
          (fun t _ => sessionToken_runClosure w.world l t)
      · cases hstep
  | strand l busy =>
      simp only [Sweeping.step] at hstep
      split at hstep
      · cases hstep
        exact hw.world (hw.held.setLink rfl (hw.held.closures l)) (fun _ _ => rfl)
      · cases hstep
  | close l =>
      simp only [Sweeping.step] at hstep
      split at hstep
      · cases hstep
        exact hw.world (hw.held.onError env (htimely.2 l rfl))
          (fun t _ => sessionToken_onError env l w.world l t)
      · cases hstep
  | sweep =>
      simp only [Sweeping.step] at hstep
      split at hstep
      · cases hstep
      · cases hstep
        exact hw.sweep htimely
  | tick now =>
      cases hstep
      exact hw.world
        (hw.held.congr (fun _ => rfl) (fun _ => rfl) (fun _ => rfl) hw.held.registry)
        (fun _ _ => rfl)

/-- Along timely steps, no session that is attached to a link was destroyed. -/
theorem run_spared
    {app : A} {steps : List Step} {w : Sweeping A}
    (htimely : Transition.Along (step env keepAlive) (Timely keepAlive) (start app) steps)
    (hrun : run env keepAlive (start app) steps = some w) :
    w.Spared :=
  (Transition.Along.invariant Inv (fun _ _ _ hw he hstep => hw.step env he hstep)
    (start_inv app) htimely hrun).spared

/-- A step that asks no link to change its session. -/
theorem timely_of_asked
    {e : Step}
    (hsweep : e ≠ .sweep)
    (hnone : w.asked e = none) :
    w.Timely keepAlive e := by
  refine ⟨fun h => absurd h hsweep, ?_⟩
  intro l hl
  rw [hnone] at hl
  cases hl

/-- A client leaves, comes back with its token, and is quiet until the next sweep. -/
theorem run_spared_comesBack :
    ∃ w, run Env.bare 1 (start ())
      [.accept 0 0, .connect 0, .close 0, .accept 1 1, .find 1 1 "", .reconnect 1,
        .reconnect 1, .reconnect 1, .tick 9, .sweep] = some w ∧
      (w.world.links 1).session = some 0 ∧ w.Spared := by
  have hruns : ∃ w, run Env.bare 1 (start ())
      [.accept 0 0, .connect 0, .close 0, .accept 1 1, .find 1 1 "", .reconnect 1,
        .reconnect 1, .reconnect 1, .tick 9, .sweep] = some w ∧
      (w.world.links 1).session = some 0 :=
    ⟨_, rfl, rfl⟩
  obtain ⟨w, hrun, hsession⟩ := hruns
  refine ⟨w, hrun, hsession, run_spared Env.bare ?_ hrun⟩
  refine .cons (timely_of_asked (by simp) rfl) rfl ?_
  refine .cons (timely_of_asked (by simp) rfl) rfl ?_
  refine .cons ⟨by simp, ?_⟩ rfl ?_
  · rintro _ ⟨⟩ _ s (_ | k) hs hk
    · rfl
    · cases hk
  refine .cons (timely_of_asked (by simp) rfl) rfl ?_
  refine .cons (timely_of_asked (by simp) rfl) rfl ?_
  refine .cons (timely_of_asked (by simp) rfl) rfl ?_
  refine .cons (timely_of_asked (by simp) rfl) rfl ?_
  refine .cons ⟨by simp, ?_⟩ rfl ?_
  · rintro _ ⟨⟩ _ s (_ | _ | k) hs hk
    · cases hk
    · rfl
    · cases hk
  refine .cons (timely_of_asked (by simp) rfl) rfl ?_
  refine .cons ⟨?_, by intro l hl; cases hl⟩ rfl trivial
  rintro _ s (⟨_ | _ | l, r, hr, _⟩ | ⟨_ | _ | l, hl⟩)
  · cases hr
  · cases hr
  · cases hr
  · cases hl
  · cases hl
  · cases hl

/-- The sweep comes between the token check and AttachSession. -/
theorem not_spared_swept :
    ¬ ∀ (steps : List Step) (w : Sweeping Unit),
      run Env.bare 1 (start ()) steps = some w → w.Spared := by
  intro h
  have hspared := h [.accept 0 0, .connect 0, .close 0, .accept 1 1, .tick 9, .find 1 1 "",
    .reconnect 1, .sweep, .reconnect 1, .reconnect 1] _ rfl
  exact hspared 1 0 rfl ⟨_, List.mem_singleton.mpr rfl, 1, by decide⟩

end Sweeping

end Reconnect

end Tcp
end Gamnet
