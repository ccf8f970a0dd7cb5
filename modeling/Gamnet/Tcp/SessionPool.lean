import Gamnet.Tcp.Attachment

/-!
# Reconnecting and the session pool

Every accepted link needs a session object of its own, also the link of a client
that comes back to a session it left. The sessions that wait for their clients
occupy objects of the same pool, and the pool is not larger than that of the
links. A client can come back exactly when a session and a packet are left
(`rejoins_iff`).
-/

namespace Gamnet
namespace Tcp

section SessionPools

variable {A : Type} (env : Env A)

/-- A Reconnect_Req, as the first frame of a link, with the key and the current token
of a registered session without a link. The JSON reader ignores what follows the
document. -/
structure RejoinRequest (w : World A) (other : SessionId) (f : Frame) : Prop where
  id : f.id = msgIdReconnectReq
  seq : 0 < f.seq
  link : (w.sessions other).link = none
  request : ∃ key, w.registry key = some other ∧
    ∀ trailing, env.parse (f.body ++ trailing) = .request key (w.sessions other).sessionToken

/-- A client opens link l, its reads are handed to the manager, and behind them the
session is attached to the link. -/
def Rejoins (m : Manager A) (l : LinkId) (other : SessionId) (reads : List (List UInt8)) :
    Prop :=
  ∃ w', onRecvMsgs env l (m.accept env l).world reads = .ok w' ∧ Attached w' l other

/-- A link without a session gets none by reading. -/
theorem session_onRecvMsgs
    {w w' : World A} {l : LinkId} {reads : List (List UInt8)}
    (hsession : (w.links l).session = none)
    (hcalls : onRecvMsgs env l w reads = .ok w') :
    (w'.links l).session = none := by
  induction reads generalizing w with
  | nil =>
      cases hcalls
      exact hsession
  | cons bytes reads ih =>
      rw [onRecvMsgs_cons] at hcalls
      simp only [onRecvMsg, hsession, Outcome.bind_ok] at hcalls
      refine ih ?_ hcalls
      simp only [onError]
      split
      · exact hsession
      · simp only [onClose, hsession, World.log_links, World.setLink_links, Function.update_self]

/-- Reads that together are one frame, the last one with its end. -/
theorem endsRead_of_flatten
    {f : Frame} {reads : List (List UInt8)}
    (hcut : reads.flatten = f.bytes)
    (hnonempty : ∀ bytes ∈ reads, bytes ≠ []) :
    ∃ front last, reads = front ++ [last] ∧ front.flatten ++ last = f.bytes ∧ last ≠ [] := by
  have hreads : reads ≠ [] := by
    rintro rfl
    have hpos := f.length_pos
    simp only [Frame.length, ← hcut, List.flatten_nil, List.length_nil] at hpos
    exact absurd hpos (Nat.lt_irrefl 0)
  have hsplit := List.dropLast_append_getLast hreads
  refine ⟨reads.dropLast, reads.getLast hreads, hsplit.symm, ?_,
    hnonempty _ (List.getLast_mem hreads)⟩
  rw [← hcut]
  conv_rhs => rw [← hsplit]
  simp

variable {l : LinkId} {other : SessionId} {f : Frame} {reads : List (List UInt8)}

/-- With a session and a packet for the link, the request is granted however it is cut
into reads. -/
theorem rejoins_of_create
    {m : Manager A} {p q : Pool} {s : SessionId}
    (htcp : env.kind = .tcp)
    (hhandler : env.handlers msgIdReconnectReq = some .reconnectReq)
    (htied : m.Tied)
    (hlinks : m.links.create = some (l, p))
    (hsessions : m.sessions.create = some (s, q))
    (hpool : (env.pool m.world.created).isSome)
    (hrequest : RejoinRequest env m.world other f)
    (hcut : reads.flatten = f.bytes)
    (hnonempty : ∀ bytes ∈ reads, bytes ≠ []) :
    Rejoins env m l other reads := by
  obtain ⟨key, hkey, hparse⟩ := hrequest.request
  have hne : other ≠ s := by
    rintro rfl
    exact (Pool.inUse_create hsessions).1 (htied.registered key other hkey).1
  obtain ⟨w₁, haccept, h₁, _, hseq⟩ := onAccept_receiving env m.world l s hpool
  obtain ⟨hregistry, _, _, hothers⟩ := onAccept_others env haccept
  have hvalid : ValidReconnect env w₁ s f other := by
    refine ⟨hrequest.id, hhandler, by rw [hseq]; exact hrequest.seq, hne, key, _, hparse, ?_, ?_⟩
    · rw [hregistry, hkey]
    · rw [hothers other hne]
  have hworld : (m.accept env l).world = w₁ := by
    simp only [Manager.accept, hlinks, hsessions, Manager.onAcceptFrom_self, haccept,
      Outcome.world_ok]
  obtain ⟨front, last, rfl, hlast, hlong⟩ := endsRead_of_flatten hcut hnonempty
  obtain ⟨w₂, hcalls, h₂, _⟩ := onRecvMsgs_reconnect env htcp h₁ hvalid hlast hlong
  rw [← hworld] at hcalls
  exact ⟨w₂, hcalls, h₂.session, h₂.link⟩

/-- Without a session or a packet for the link, it stays without a session. -/
theorem not_rejoins_of_exhausted
    {m : Manager A} {p : Pool}
    (hlinks : m.links.create = some (l, p))
    (hexhausted : m.sessions.create = none ∨ env.pool m.world.created = none) :
    ¬ Rejoins env m l other reads := by
  rintro ⟨w', hcalls, hattached⟩
  have hopen : ((openLink m.world l).links l).session = none := by
    simp only [openLink, World.setLink_links, Function.update_self]
  have hsession : ((m.accept env l).world.links l).session = none := by
    simp only [Manager.accept, hlinks]
    cases hcreate : m.sessions.create with
    | none =>
        simp only [Manager.onAcceptFrom, Outcome.world_ok, onError]
        split
        · exact hopen
        · simp only [onClose, hopen, World.log_links, World.setLink_links, Function.update_self]
    | some created =>
        have hpool : env.pool m.world.created = none := by
          rcases hexhausted with hnone | hpool
          · rw [hcreate] at hnone
            cases hnone
          · exact hpool
        have hpool' : env.pool (openLink m.world l).created = none := hpool
        simp only [Manager.onAcceptFrom, createPacket, hpool', Outcome.world_crash]
        exact hopen
  have hnone := session_onRecvMsgs env hsession hcalls
  rw [hattached.session] at hnone
  cases hnone

end SessionPools

section Leaving

variable {A : Type} (env : Env A)

/-- The steps of a link that is closed and goes back to its pool. -/
def leaveSteps (l : LinkId) : List Manager.Step :=
  [.act (.close l l), .act (.strand l false), .releaseLink l]

/-- The client of session s has left link l. -/
structure Left (l : LinkId) (s : SessionId) (w w' : World A) : Prop where
  links : w'.links =
    Function.update w.links l { isOpen := false, session := none, busy := false, closures := [] }
  link : (w'.sessions s).link = none
  others : ∀ t, t ≠ s → w'.sessions t = w.sessions t
  sessionToken : ∀ t, (w'.sessions t).sessionToken = (w.sessions t).sessionToken
  registry : w'.registry = w.registry

theorem left
    {m : Manager A} {l : LinkId} {s : SessionId}
    (htcp : env.kind = .tcp)
    (hclose : ∀ app, env.onClose app s = (app, false))
    (hlink : m.world.links l = Link.accepted s)
    (hin : m.links.InUse l)
    (hothers : ∀ t, t ≠ s → (m.world.sessions t).link ≠ some l) :
    (m.run env (leaveSteps l)).links = m.links.restitute l hin ∧
      (m.run env (leaveSteps l)).sessions = m.sessions ∧
      Left l s m.world (m.run env (leaveSteps l)).world := by
  have hclosed : onError env l m.world l =
      (((attachClosure m.world l none).setLink l
        { (attachClosure m.world l none).links l with isOpen := false }).log (.close l)) := by
    have happ : ({ m.world with app := m.world.app } : World A) = m.world := rfl
    simp only [onError, onClose, hlink, Link.accepted, hclose, unregister, htcp, happ,
      attachSession, true_or, if_true, Bool.true_eq_false, if_false]
  have hlinks₁ : (onError env l m.world l).links = Function.update m.world.links l
      { isOpen := false, session := none, busy := true, closures := [] } := by
    rw [hclosed, World.log_links, World.setLink_links, links_attachClosure, Function.update_self,
      Function.update_idem, hlink]
    rfl
  have hsessions₁ : (onError env l m.world l).sessions = Function.update m.world.sessions s
      { m.world.sessions s with link := none } := by
    rw [hclosed]
    simp only [World.log_sessions, World.setLink_sessions, attachClosure, releaseSession, hlink,
      Link.accepted, World.setSession_sessions]
  have hregistry₁ : (onError env l m.world l).registry = m.world.registry := by
    rw [hclosed]
    exact (sameSessions_attachClosure m.world l none).registry
  generalize honError : onError env l m.world l = w₁ at *
  have hfree : ∀ t, (w₁.sessions t).link ≠ some l := by
    intro t
    rw [hsessions₁]
    by_cases ht : t = s
    · rw [ht, Function.update_self]
      simp
    · rw [Function.update_of_ne ht]
      exact hothers t ht
  have hstrand : act env w₁ (.strand l false) =
      w₁.setLink l { isOpen := false, session := none, busy := false, closures := [] } := by
    simp only [act, hlinks₁, Function.update_self, or_true, if_true]
  have hreleased : ¬ Manager.LinkReferenced { m with world := act env w₁ (.strand l false) } l := by
    rw [hstrand]
    simp only [Manager.LinkReferenced, World.setLink_links, Function.update_self,
      World.setLink_sessions, ne_eq, not_true_eq_false, Bool.false_eq_true, false_or]
    rintro ⟨t, _, ht⟩
    exact hfree t ht
  have hrun : m.run env (leaveSteps l) =
      { m with world := act env w₁ (.strand l false), links := m.links.restitute l hin } := by
    simp only [Manager.run, leaveSteps, List.foldl_cons, List.foldl_nil, Manager.step]
    have hact : act env m.world (.close l l) = w₁ := honError
    rw [hact, dif_pos ⟨hin, hreleased⟩]
  rw [hrun]
  refine ⟨rfl, rfl, ?_, ?_, ?_, ?_, ?_⟩
  · rw [hstrand, World.setLink_links, hlinks₁, Function.update_idem]
  · rw [hstrand, World.setLink_sessions, hsessions₁, Function.update_self]
  · intro t ht
    rw [hstrand, World.setLink_sessions, hsessions₁, Function.update_of_ne ht]
  · intro t
    rw [hstrand, World.setLink_sessions, hsessions₁]
    by_cases ht : t = s
    · rw [ht, Function.update_self]
    · rw [Function.update_of_ne ht]
  · rw [hstrand]
    exact hregistry₁

end Leaving

section ComingBack

variable {A : Type} (env : Env A)
variable {l : LinkId} {other : SessionId} {f : Frame} {reads : List (List UInt8)}

/-- In every state of a manager that can open another link, a client can come back to a
registered session without a link exactly when a session object and a packet are left. -/
theorem rejoins_iff
    (htcp : env.kind = .tcp)
    (hhandler : env.handlers msgIdReconnectReq = some .reconnectReq)
    (hnever : env.NeverAttaches)
    (maxSession : Nat) (app : A) (steps : List Manager.Step)
    {p : Pool}
    (hlinks : ((Manager.listen maxSession app).run env steps).links.create = some (l, p))
    (hrequest : RejoinRequest env ((Manager.listen maxSession app).run env steps).world other f)
    (hcut : reads.flatten = f.bytes)
    (hnonempty : ∀ bytes ∈ reads, bytes ≠ []) :
    Rejoins env ((Manager.listen maxSession app).run env steps) l other reads ↔
      0 < ((Manager.listen maxSession app).run env steps).sessions.available ∧
        (env.pool ((Manager.listen maxSession app).run env steps).world.created).isSome := by
  have htied : ((Manager.listen maxSession app).run env steps).Tied :=
    Manager.Tied.run env htcp hnever (Manager.tied_listen maxSession app) steps
  generalize (Manager.listen maxSession app).run env steps = m at *
  constructor
  · intro hrejoins
    refine ⟨?_, ?_⟩
    · rw [Nat.pos_iff_ne_zero]
      intro hnone
      exact not_rejoins_of_exhausted env hlinks
        (Or.inl ((Pool.create_eq_none_iff _).mpr hnone)) hrejoins
    · rw [Option.isSome_iff_ne_none]
      intro hnone
      exact not_rejoins_of_exhausted env hlinks (Or.inr hnone) hrejoins
  · rintro ⟨havailable, hpool⟩
    cases hcreate : m.sessions.create with
    | none =>
        rw [Pool.create_eq_none_iff] at hcreate
        omega
    | some created =>
        exact rejoins_of_create env htcp hhandler htied hlinks hcreate hpool hrequest hcut
          hnonempty

theorem neverAttaches_silent :
    Env.silent.NeverAttaches := by
  refine neverAttaches_listen _ _ ?_
  intro msgId u hu w s packet c hc
  split at hu
  · cases hu
    cases hc
  · cases hu

/-- A manager of two sessions, whose only client left and comes back: its request is cut
in two. -/
theorem rejoins_silent :
    Rejoins Env.silent ((Manager.listen 2 ()).run Env.silent (joinSteps 0 0 ++ leaveSteps 0)) 0 0
      [reconnectReq.bytes.take 7, reconnectReq.bytes.drop 7] := by
  obtain ⟨hlinks₁, hsessions₁, h₁⟩ := joined Env.silent (m := Manager.listen 2 ()) (l := 0)
    (s := 0) (p := (Pool.ofCapacity 2).make (by decide))
    (q := (Pool.ofCapacity 2).make (by decide)) rfl rfl (fun _ => rfl) rfl rfl rfl rfl
  have hrun := Manager.run_append Env.silent (Manager.listen 2 ()) (joinSteps 0 0) (leaveSteps 0)
  generalize (Manager.listen 2 ()).run Env.silent (joinSteps 0 0) = m₁ at *
  have hin : m₁.links.InUse 0 := by
    rw [hlinks₁]
    decide
  obtain ⟨hlinks₂, hsessions₂, h₂⟩ := left Env.silent (l := 0) (s := 0) rfl (fun _ => rfl)
    (by rw [h₁.links, Function.update_self]) hin
    (by
      intro t ht hl
      rw [h₁.others t ht] at hl
      cases hl)
  rw [← hrun] at hlinks₂ hsessions₂ h₂
  obtain ⟨p, hcreate⟩ := Pool.create_restitute hin
  rw [← hlinks₂] at hcreate
  refine (rejoins_iff Env.silent (f := reconnectReq) rfl rfl neverAttaches_silent 2 ()
    (joinSteps 0 0 ++ leaveSteps 0) hcreate ⟨by decide, by decide, h₂.link, 1, ?_, ?_⟩
    (by decide) (by decide)).mpr ⟨?_, rfl⟩
  · rw [h₂.registry, h₁.registry]
    rfl
  · rw [h₂.sessionToken, h₁.sessionToken]
    exact parse_silent
  · rw [hsessions₂, hsessions₁]
    decide

/-- Two clients connect and leave, and the links go back to their pool. -/
def exhaustingSteps : List Manager.Step :=
  (joinSteps 0 0 ++ joinSteps 1 1) ++ (leaveSteps 0 ++ leaveSteps 1)

/-- Two clients that are connected to a manager of two sessions. -/
structure Occupied (m : Manager Unit) : Prop where
  links : m.links = ((Pool.ofCapacity 2).make (by decide)).make (by decide)
  sessions : m.sessions = ((Pool.ofCapacity 2).make (by decide)).make (by decide)
  link0 : m.world.links 0 = Link.accepted 0
  link1 : m.world.links 1 = Link.accepted 1
  linked : ∀ t l, (m.world.sessions t).link = some l → t = l
  registry : m.world.registry 1 = some 0
  sessionToken : (m.world.sessions 0).sessionToken = "token"

theorem occupied_silent :
    Occupied ((Manager.listen 2 ()).run Env.silent (joinSteps 0 0 ++ joinSteps 1 1)) := by
  rw [Manager.run_append]
  obtain ⟨hlinks₁, hsessions₁, h₁⟩ := joined Env.silent (m := Manager.listen 2 ()) (l := 0)
    (s := 0) (p := (Pool.ofCapacity 2).make (by decide))
    (q := (Pool.ofCapacity 2).make (by decide)) rfl rfl (fun _ => rfl) rfl rfl rfl rfl
  generalize (Manager.listen 2 ()).run Env.silent (joinSteps 0 0) = m₁ at *
  obtain ⟨hlinks₂, hsessions₂, h₂⟩ := joined Env.silent (m := m₁) (l := 1) (s := 1)
    (p := ((Pool.ofCapacity 2).make (by decide)).make (by decide))
    (q := ((Pool.ofCapacity 2).make (by decide)).make (by decide)) rfl rfl (fun _ => rfl) rfl
    (by rw [hlinks₁]; rfl) (by rw [hsessions₁]; rfl)
    (by
      rw [h₁.keys, h₁.registry]
      rfl)
  refine ⟨hlinks₂, hsessions₂, ?_, ?_, ?_, ?_, ?_⟩
  · rw [h₂.links, Function.update_of_ne (by decide), h₁.links, Function.update_self]
  · rw [h₂.links, Function.update_self]
  · intro t l hl
    by_cases ht₁ : t = 1
    · rw [ht₁, h₂.link] at hl
      rw [ht₁, Option.some.inj hl]
    · rw [h₂.others t ht₁] at hl
      by_cases ht₀ : t = 0
      · rw [ht₀, h₁.link] at hl
        rw [ht₀, Option.some.inj hl]
      · rw [h₁.others t ht₀] at hl
        cases hl
  · rw [h₂.registry, h₁.keys, Function.update_of_ne (by decide), h₁.registry]
    rfl
  · rw [h₂.others 0 (by decide), h₁.sessionToken]
    rfl

/-- Behind these steps a link is left, but no session. -/
theorem exhausted_silent :
    (∃ p, ((Manager.listen 2 ()).run Env.silent exhaustingSteps).links.create = some (1, p)) ∧
      ((Manager.listen 2 ()).run Env.silent exhaustingSteps).sessions.create = none ∧
      RejoinRequest Env.silent ((Manager.listen 2 ()).run Env.silent exhaustingSteps).world 0
        reconnectReq := by
  have hoccupied := occupied_silent
  simp only [exhaustingSteps, Manager.run_append _ _ (joinSteps 0 0 ++ joinSteps 1 1)]
  generalize (Manager.listen 2 ()).run Env.silent (joinSteps 0 0 ++ joinSteps 1 1) = m at *
  have hin₀ : m.links.InUse 0 := by
    rw [hoccupied.links]
    decide
  obtain ⟨hlinks₀, hsessions₀, h₀⟩ := left Env.silent rfl (fun _ => rfl) hoccupied.link0 hin₀
    (fun t ht hl => ht (hoccupied.linked t 0 hl))
  rw [Manager.run_append]
  generalize m.run Env.silent (leaveSteps 0) = m₀ at *
  have hin₁ : m₀.links.InUse 1 := by
    rw [hlinks₀, Pool.inUse_restitute, hoccupied.links]
    decide
  obtain ⟨hlinks₁, hsessions₁, h₁⟩ := left Env.silent (m := m₀) (l := 1) (s := 1) rfl
    (fun _ => rfl)
    (by rw [h₀.links, Function.update_of_ne (by decide), hoccupied.link1]) hin₁
    (by
      intro t ht hl
      by_cases ht₀ : t = 0
      · rw [ht₀, h₀.link] at hl
        cases hl
      · rw [h₀.others t ht₀] at hl
        exact ht (hoccupied.linked t 1 hl))
  generalize m₀.run Env.silent (leaveSteps 1) = m₁ at *
  refine ⟨?_, ?_, by decide, by decide, ?_, 1, ?_, ?_⟩
  · rw [hlinks₁]
    exact Pool.create_restitute hin₁
  · rw [hsessions₁, hsessions₀, hoccupied.sessions]
    rfl
  · rw [h₁.others 0 (by decide), h₀.link]
  · rw [h₁.registry, h₀.registry, hoccupied.registry]
  · rw [h₁.sessionToken, h₀.sessionToken, hoccupied.sessionToken]
    exact parse_silent

/-- The client of session 0 cannot come back. -/
theorem exhaustingSteps_not_rejoins :
    (∃ p, ((Manager.listen 2 ()).run Env.silent exhaustingSteps).links.create = some (1, p)) ∧
      RejoinRequest Env.silent ((Manager.listen 2 ()).run Env.silent exhaustingSteps).world 0
        reconnectReq ∧
      ¬ Rejoins Env.silent ((Manager.listen 2 ()).run Env.silent exhaustingSteps) 1 0
        [reconnectReq.bytes] := by
  obtain ⟨⟨p, hlinks⟩, hsessions, hrequest⟩ := exhausted_silent
  exact ⟨⟨p, hlinks⟩, hrequest, not_rejoins_of_exhausted Env.silent hlinks (Or.inl hsessions)⟩

end ComingBack

end Tcp
end Gamnet
