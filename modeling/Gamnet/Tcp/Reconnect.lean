import Gamnet.Tcp.Invariant
import Gamnet.Tcp.Registration

/-!
# Reconnecting to a session

Recv_Reconnect_Req attaches the link to the restored session and hands it the
packet of the session that is receiving, while the receive loop goes on with the
latter. When a read ends with the request, nothing is left in the packet and the
restored session receives the rest of the stream (`reconnect_stream`). When a
read carries bytes behind the request, the loop dispatches the frames among them
to the old session, and the restored session keeps a packet whose read cursor is
not at the front.
-/

namespace Gamnet
namespace Tcp

section TakeOver

variable {A : Type} (env : Env A)

theorem attached_attachClosure
    (w : World A) (l : LinkId) (s : SessionId) :
    Attached (attachClosure w l (some s)) l s := by
  refine ⟨?_, ?_⟩
  · simp [attachClosure]
  · simp [attachClosure]

/-- The restored session is attached to the link of the request, wherever it
was attached before. -/
theorem attached_acceptReconnect
    (w : World A) (s : SessionId) (l : LinkId) (other : SessionId) :
    Attached (acceptReconnect env l w s l other) l other := by
  simp only [acceptReconnect]
  refine Attached.quiet ?_ (quiet_linkAnswer env _ l _)
  simp only [attachSession, true_or, if_true]
  exact attached_attachClosure _ l other

/-- The restored session receives into the packet of the request. -/
theorem recvPacket_acceptReconnect
    (w : World A) (s : SessionId) (l : LinkId) (other : SessionId) :
    ((acceptReconnect env l w s l other).sessions other).recvPacket =
      (w.sessions s).recvPacket := by
  simp only [acceptReconnect]
  rw [(quiet_linkAnswer env _ l _).recvPacket,
    (steady_attachSession other l _ l (some other)).recvPacket,
    (quiet_renewToken env _ other).recvPacket]
  rw [World.setSession_sessions, Function.update_self]
  exact (steady_leaveLink s l w other).recvPacket

/-- The body of a frame. -/
def Frame.body (f : Frame) : List UInt8 :=
  f.bytes.drop headerSize

/-- The JSON reader sees the body of the frame at the front, and some bytes
behind it. -/
theorem reconnectText_of_front
    {p : Packet} {f : Frame} {rest : List UInt8}
    (hread : p.readCursor = 0)
    (hfront : p.unread = f.bytes ++ rest) :
    ∃ trailing, reconnectText p = f.body ++ trailing := by
  have hheader := f.headerSize_le
  have hbody : (f.bytes.drop headerSize).length ≤ p.size := by
    rw [← Buffer.unread_length, hfront, List.length_append,
      List.length_drop]
    omega
  have hdata := Buffer.data_eq_unread_append hread
  rw [hfront, List.append_assoc] at hdata
  simp only [reconnectText, hread, Nat.zero_add]
  rw [hdata, List.drop_append_of_le_length hheader, List.take_append]
  rw [List.take_of_length_le hbody]
  exact ⟨_, rfl⟩

/-- A frame with which session s of the link takes session other over. The JSON
reader ignores what follows the document. -/
structure ValidReconnect (w : World A) (s : SessionId) (f : Frame)
    (other : SessionId) : Prop where
  id : f.id = msgIdReconnectReq
  handler : env.handlers msgIdReconnectReq = some .reconnectReq
  seq : (w.sessions s).msgSeq < f.seq
  other_ne : other ≠ s
  request : ∃ key token,
    (∀ trailing, env.parse (f.body ++ trailing) = .request key token) ∧
      w.registry key = some other ∧
      (w.sessions other).sessionToken = token

/-- A valid Reconnect_Req is valid as long as its number is new and the other session stays
registered as it is. -/
theorem ValidReconnect.later
    {w w' : World A} {s other : SessionId} {f : Frame}
    (h : ValidReconnect env w s f other)
    (hseq : (w'.sessions s).msgSeq < f.seq)
    (hregistry : w'.registry = w.registry)
    (hother : w'.sessions other = w.sessions other) :
    ValidReconnect env w' s f other := by
  obtain ⟨key, token, hparse, hkey, htoken⟩ := h.request
  refine ⟨h.id, h.handler, hseq, h.other_ne, key, token, hparse, ?_, ?_⟩
  · rw [hregistry, hkey]
  · rw [hother, htoken]

theorem ValidReconnect.idle
    {w w' : World A} {s other : SessionId} {f : Frame}
    (h : ValidReconnect env w s f other)
    (hidle : Idle s w w') :
    ValidReconnect env w' s f other := by
  refine h.later env ?_ hidle.registry (hidle.sessions other h.other_ne)
  rw [hidle.msgSeq]
  exact h.seq

/-- What the delivery of a valid Reconnect_Req establishes. -/
structure TakenOver (l : LinkId) (s other : SessionId) (f : Frame)
    (w w' : World A) : Prop where
  attached : Attached w' l other
  recvPacket : (w'.sessions other).recvPacket = (w'.sessions s).recvPacket
  msgSeq : ∀ t, t ≠ s → (w'.sessions t).msgSeq = (w.sessions t).msgSeq
  dispatched : ∃ p, w'.dispatched s = w.dispatched s ++ [p] ∧ Shows p f
  others : ∀ t, t ≠ s → w'.dispatched t = w.dispatched t

variable {w : World A} {l : LinkId} {s other : SessionId} {f : Frame}

/-- The delivery of a valid Reconnect_Req, whatever follows it. -/
theorem deliver_reconnect
    {rest : List UInt8}
    (htcp : env.kind = .tcp)
    (h : Receiving w l s (f.bytes ++ rest))
    (hvalid : ValidReconnect env w s f other) :
    ∃ w₁, deliver env l w s = .ok w₁ ∧
      Holds w₁ s (f.bytes ++ rest) ∧
      (w₁.sessions s).msgSeq = f.seq ∧
      TakenOver l s other f w w₁ := by
  obtain ⟨key, token, hparse, hkey, htoken⟩ := hvalid.request
  obtain ⟨trailing, htext⟩ := reconnectText_of_front h.readCursor h.unread
  have hshows := shows_of_front h.readCursor h.unread
  have hid : (w.recvPacket s).getID = msgIdReconnectReq := by
    rw [hshows.getID, hvalid.id]
  have hpasses : passes env (w.log (.examine s (w.recvPacket s))) s
      (w.recvPacket s) = true := by
    have hfront := passes_of_front env h.toHolds
    simp only [Kind.accepts, htcp, hvalid.seq, decide_true] at hfront
    exact hfront
  have hdispatch : dispatch env l (w.log (.examine s (w.recvPacket s))) s
      (w.recvPacket s) =
        .ok (acceptReconnect env l
          ((w.log (.examine s (w.recvPacket s))).log
            (.dispatch s (w.recvPacket s))) s l other) := by
    have hlink : (((w.log (.examine s (w.recvPacket s))).log
        (.dispatch s (w.recvPacket s))).sessions s).link = some l := h.link
    have hkey' : ((w.log (.examine s (w.recvPacket s))).log
        (.dispatch s (w.recvPacket s))).registry key = some other := hkey
    have htoken' : (((w.log (.examine s (w.recvPacket s))).log
        (.dispatch s (w.recvPacket s))).sessions other).sessionToken =
          token := htoken
    simp only [dispatch, findHandler, hid, hvalid.handler, getHandler,
      runHandler, recvReconnectReq, hlink, htext, hparse, hkey', htoken',
      ne_eq, not_true_eq_false, if_false, Outcome.caught]
  have hsteady := steady_dispatch env s l
    (w.log (.examine s (w.recvPacket s))) (w.recvPacket s)
  rw [hdispatch, Outcome.world_ok] at hsteady
  have hattached := attached_acceptReconnect env
    ((w.log (.examine s (w.recvPacket s))).log
      (.dispatch s (w.recvPacket s))) s l other
  have hrecv := recvPacket_acceptReconnect env
    ((w.log (.examine s (w.recvPacket s))).log
      (.dispatch s (w.recvPacket s))) s l other
  have hholds := ((h.toHolds.log (.examine s (w.recvPacket s))).log
    (.dispatch s (w.recvPacket s))).steady hsteady
  simp only [deliver, hpasses, if_true, hdispatch, Outcome.bind_ok, storeSeq,
    htcp, hshows.getSEQ]
  generalize acceptReconnect env l
    ((w.log (.examine s (w.recvPacket s))).log
      (.dispatch s (w.recvPacket s))) s l other = w₁ at *
  have hne := hvalid.other_ne
  refine ⟨_, rfl, ⟨?_, ?_, ?_⟩, ?_, ⟨⟨hattached.session, ?_⟩, ?_, ?_,
    ⟨w.recvPacket s, ?_, hshows⟩, ?_⟩⟩
  · simpa using hholds.created
  · simpa [World.recvPacket] using hholds.unread
  · simpa [World.recvPacket] using hholds.readCursor
  · simp
  · simpa [hne] using hattached.link
  · simp only [World.setSession_sessions, Function.update_of_ne hne,
      Function.update_self]
    rw [hrecv]
    exact hsteady.recvPacket.symm
  · intro t ht
    rw [World.setSession_sessions, Function.update_of_ne ht]
    exact hsteady.msgSeq t
  · rw [World.dispatched_of_trace_eq (World.setSession_trace _ _ _)]
    refine (hsteady.dispatched_eq s).trans ?_
    rw [World.dispatched_log_dispatch, World.dispatched_log_examine]
  · intro t ht
    rw [World.dispatched_of_trace_eq (World.setSession_trace _ _ _)]
    refine (hsteady.dispatched_eq t).trans ?_
    rw [World.dispatched_log_dispatch_of_ne _ _ ht,
      World.dispatched_log_examine]

/-- The call that reads the last byte of a valid Reconnect_Req and nothing
behind it. -/
theorem onRecvMsg_reconnect
    {u bytes : List UInt8}
    (htcp : env.kind = .tcp)
    (h : Receiving w l s u)
    (hbytes : u ++ bytes = f.bytes)
    (hvalid : ValidReconnect env w s f other) :
    ∃ w', onRecvMsg env l w bytes = .ok w' ∧
      Receiving w' l other [] ∧
      TakenOver l s other f w w' := by
  obtain ⟨w₀, hfront, hidle, hreturn⟩ := onRecvMsg_single env h hbytes
  obtain ⟨w₁, hdeliver, _, _, hover⟩ :=
    deliver_reconnect env htcp hfront (hvalid.idle env hidle)
  obtain ⟨w₂, hcall, hholds₂, hadvanced, hpacket⟩ :=
    hreturn w₁ hdeliver
  have hother : (w₂.sessions other).recvPacket =
      (w₂.sessions s).recvPacket := by
    rw [hadvanced.session_of_ne hvalid.other_ne, hover.recvPacket, hpacket]
  refine ⟨w₂, hcall, ⟨⟨?_, ?_, ?_⟩, ⟨?_, ?_⟩⟩,
    ⟨⟨?_, ?_⟩, hother, ?_, ?_, ?_⟩⟩
  · rw [hother]
    exact hholds₂.created
  · simp only [World.recvPacket, hother]
    exact hholds₂.unread
  · simp only [World.recvPacket, hother]
    exact hholds₂.readCursor
  · rw [hadvanced.links, hover.attached.session]
  · rw [hadvanced.link_eq, hover.attached.link]
  · rw [hadvanced.links, hover.attached.session]
  · rw [hadvanced.link_eq, hover.attached.link]
  · intro t ht
    rw [hadvanced.msgSeq_eq, hover.msgSeq t ht, hidle.sessions t ht]
  · obtain ⟨p, hp, hshows⟩ := hover.dispatched
    refine ⟨p, ?_, hshows⟩
    rw [World.dispatched_of_trace_eq hadvanced.trace, hp,
      World.dispatched_of_trace_eq hidle.trace]
  · intro t ht
    rw [World.dispatched_of_trace_eq hadvanced.trace, hover.others t ht,
      World.dispatched_of_trace_eq hidle.trace]

/-- A valid Reconnect_Req that is cut into reads, nothing behind it. -/
theorem onRecvMsgs_reconnect
    {front : List (List UInt8)} {last : List UInt8}
    (htcp : env.kind = .tcp)
    (h : Receiving w l s [])
    (hvalid : ValidReconnect env w s f other)
    (hcut : front.flatten ++ last = f.bytes)
    (hlast : last ≠ []) :
    ∃ w', onRecvMsgs env l w (front ++ [last]) = .ok w' ∧
      Receiving w' l other [] ∧
      TakenOver l s other f w w' := by
  have hfront : [] ++ front.flatten <+: f.bytes := by
    rw [List.nil_append, ← hcut]
    exact List.prefix_append _ _
  have hlength : front.flatten.length + last.length = f.length := by
    rw [← List.length_append, hcut]
    rfl
  have hshort : ([] ++ front.flatten).length < f.length := by
    have hpos := List.length_pos_of_ne_nil hlast
    rw [List.nil_append]
    omega
  obtain ⟨w₁, hcalls, h₁, hidle⟩ := onRecvMsgs_waiting env h hfront hshort
  rw [List.nil_append] at h₁
  obtain ⟨w₂, hcall, h₂, hover⟩ := onRecvMsg_reconnect env htcp h₁ hcut
    (hvalid.idle env hidle)
  refine ⟨w₂, ?_, h₂, hover.attached, hover.recvPacket, ?_, ?_, ?_⟩
  · rw [onRecvMsgs_append, hcalls, Outcome.bind_ok, onRecvMsgs_cons, hcall]
    rfl
  · intro t ht
    rw [hover.msgSeq t ht, hidle.sessions t ht]
  · obtain ⟨p, hp, hshows⟩ := hover.dispatched
    refine ⟨p, ?_, hshows⟩
    rw [hp, World.dispatched_of_trace_eq hidle.trace]
  · intro t ht
    rw [hover.others t ht, World.dispatched_of_trace_eq hidle.trace]

end TakeOver

section Streams

variable {A : Type} (env : Env A)

/-- The frames gs behind the request f go to the restored session alone: it
gets exactly those that its own sequence number lets pass. -/
structure StreamKept (s other : SessionId) (f : Frame) (gs : List Frame)
    (w w' : World A) : Prop where
  request : ∃ p, w'.dispatched s = w.dispatched s ++ [p] ∧ Shows p f
  restored : ∃ ps, w'.dispatched other = w.dispatched other ++ ps ∧
    List.Forall₂ Shows ps (accepted .tcp (w.sessions other).msgSeq gs)
  others : ∀ t, t ≠ s → t ≠ other → w'.dispatched t = w.dispatched t

/-- One of the reads ends with the last byte of the frame. -/
def EndsRead (f : Frame) (reads : List (List UInt8)) : Prop :=
  ∃ front last later, reads = front ++ last :: later ∧
    front.flatten ++ last = f.bytes ∧ last ≠ []

/-- P holds in front of each round that serves the restored session. -/
def RestoredWithin (P : World A → Prop) (l : LinkId) (other : SessionId)
    (w : World A) (reads : List (List UInt8)) : Prop :=
  ∀ front later w₂, reads = front ++ later → onRecvMsgs env l w front = .ok w₂ →
    Attached w₂ l other → RunsWithin env P l other w₂ later

variable {P : World A → Prop}
variable {w : World A} {l : LinkId} {s other : SessionId} {f : Frame}

/-- Reconnection keeps the stream in every run in which a read ends with the
Reconnect_Req: whatever the other cuts, the restored session receives the frames
behind the request. -/
theorem reconnect_stream
    {gs : List Frame} {next : Frame} {t : List UInt8}
    {reads : List (List UInt8)}
    (htcp : env.kind = .tcp)
    (hpool : ∀ n, (env.pool n).isSome)
    (hstart : Receiving w l s [])
    (hvalid : ValidReconnect env w s f other)
    (hinit : t <+: next.bytes)
    (hproper : t ≠ next.bytes)
    (hcut : reads.flatten = f.bytes ++ (stream gs ++ t))
    (hfits : Framing.FitsIn Buffer.maxSize ((f :: gs).map Frame.length) 0
      (reads.map List.length))
    (hwithin : RestoredWithin env P l other w reads)
    (hkeeps : KeepingFrames env P l other (w.sessions other).msgSeq gs)
    (hends : EndsRead f reads) :
    ∃ w', onRecvMsgs env l w reads = .ok w' ∧
      Receiving w' l other t ∧
      StreamKept s other f gs w w' := by
  obtain ⟨front, last, later, rfl, hlast, hnonempty⟩ := hends
  have hlater : later.flatten = stream gs ++ t := by
    rw [List.flatten_append, List.flatten_cons, ← List.append_assoc,
      hlast] at hcut
    exact List.append_cancel_left hcut
  have hlength : front.flatten.length + last.length = f.length := by
    rw [← List.length_append, hlast]
    rfl
  obtain ⟨w₂, hcalls, h₂, hover⟩ :=
    onRecvMsgs_reconnect env htcp hstart hvalid hlast hnonempty
  have hne := hvalid.other_ne
  have hseq : (w₂.sessions other).msgSeq = (w.sessions other).msgSeq :=
    hover.msgSeq other hne
  have hfits₂ : Framing.FitsIn Buffer.maxSize (gs.map Frame.length) 0
      (later.map List.length) := by
    rw [List.map_append, List.map_cons, Framing.fitsIn_append] at hfits
    have hsum : 0 + (front.map List.length).sum + last.length =
        ((f.length :: gs.map Frame.length).take 1).sum + 0 := by
      rw [Nat.zero_add, ← List.length_flatten, hlength]
      simp
    have hrest := hfits.2.2
    rw [hsum, Framing.fitsIn_drop] at hrest
    exact hrest
  have hwithin₂ : RunsWithin env P l other w₂ later :=
    hwithin (front ++ [last]) later w₂ (List.append_cons front last later) hcalls h₂.toAttached
  have hkeeps₂ : KeepingFrames env P l other (w₂.sessions other).msgSeq gs := by
    rw [hseq]
    exact hkeeps
  have hwait := next.isFrame.waiting_take hinit hproper
  obtain ⟨w', hcalls', h', hprogress⟩ :=
    Connected.onRecvMsgs_of_fitsIn env hpool
      ⟨h₂, hlater, Framing.unfinished_zero _, hwithin₂, hkeeps₂⟩ hwait hfits₂
  refine ⟨w', ?_, h', ?_, ?_, ?_⟩
  · rw [List.append_cons, onRecvMsgs_append, hcalls, Outcome.bind_ok, hcalls']
  · obtain ⟨p, hp, hshows⟩ := hover.dispatched
    refine ⟨p, ?_, hshows⟩
    rw [hprogress.others s (Ne.symm hne), hp]
  · obtain ⟨ps, hps, hshows⟩ := hprogress.dispatched
    refine ⟨ps, ?_, ?_⟩
    · rw [hps, hover.others other hne]
    · rw [htcp, hseq] at hshows
      exact hshows
  · intro x hxs hxo
    rw [hprogress.others x hxo, hover.others x hxs]

end Streams

section Examples

/-- The JSON text of a Reconnect_Req for session key 1 and token "token". -/
def requestText : List UInt8 :=
  [123, 34, 115, 101, 115, 115, 105, 111, 110, 95, 107, 101, 121, 34, 58, 49,
    44, 34, 115, 101, 115, 115, 105, 111, 110, 95, 116, 111, 107, 101, 110, 34,
    58, 34, 116, 111, 107, 101, 110, 34, 125]

/-- A JSON reader, as far as it concerns texts that begin with this document. -/
def parseRequest (text : List UInt8) : ReconnectReq :=
  if requestText.isPrefixOf text then .request 1 "token" else .malformed

/-- An application handler that neither sends nor touches the link. -/
def silentHandler : UserHandler Unit where
  getHandler := fun _ _ => some ()
  function := fun _ _ _ => { app := (), commands := [], throws := false }

/-- A manager with one application handler, for message id 100. -/
def Env.silent : Env Unit :=
  Env.listen (fun _ _ => "token") parseRequest
    (fun msgId => if msgId = 100 then some silentHandler else none)

/-- The Reconnect_Req with this text. -/
def reconnectReq : Frame :=
  Frame.write 1 msgIdReconnectReq requestText (by decide)

theorem run_silent :
    run Env.silent (World.initial ()) rejoinSteps =
        .ok (World.rejoining Env.silent ()) ∧
      Rejoining "token" (World.rejoining Env.silent ()) :=
  run_rejoinSteps _ _ _ ()

theorem parse_silent
    (trailing : List UInt8) :
    Env.silent.parse (reconnectReq.body ++ trailing) = .request 1 "token" := by
  have hbody : reconnectReq.body = requestText := by
    decide
  have hfront : requestText.isPrefixOf (requestText ++ trailing) = true := by
    rw [List.isPrefixOf_iff_prefix]
    exact List.prefix_append _ _
  simp only [Env.silent, Env.listen, parseRequest, hbody, hfront, if_true]

theorem validReconnect_silent :
    ValidReconnect Env.silent (World.rejoining Env.silent ()) 1 reconnectReq
      0 := by
  obtain ⟨_, h⟩ := run_silent
  refine ⟨by decide, rfl, ?_, by decide, 1, "token", ?_, h.registered.registry,
    h.registered.sessionToken⟩
  · rw [h.msgSeq]
    decide
  · exact parse_silent

/-- A request that is cut in two, and a heartbeat in a read of its own. -/
theorem reconnect_stream_heartBeat :
    ∃ w', onRecvMsgs Env.silent 1 (World.rejoining Env.silent ())
        [reconnectReq.bytes.take 7, reconnectReq.bytes.drop 7,
          (heartBeatReq 3).bytes] = .ok w' ∧
      Receiving w' 1 0 [] ∧
      StreamKept 1 0 reconnectReq [heartBeatReq 3]
        (World.rejoining Env.silent ()) w' :=
  reconnect_stream Env.silent rfl (fun _ => rfl) run_silent.2.receiving
    validReconnect_silent (@List.nil_prefix _ (heartBeatReq 4).bytes)
    (by decide) (by decide) (by decide)
    (fun _ _ _ _ _ _ => runsWithin_true Env.silent 1 0 _ _)
    (fun f hf => by
      have hf' := List.mem_singleton.mp (mem_of_mem_accepted hf)
      rw [hf']
      exact ⟨.heartBeatReq, rfl, keeps_heartBeatReq Env.silent _ 1 0⟩)
    ⟨[reconnectReq.bytes.take 7], reconnectReq.bytes.drop 7,
      [(heartBeatReq 3).bytes], rfl, by decide, by decide⟩

end Examples

section JoinedReads

variable {A : Type} (env : Env A)

/-- Deliveries add to the dispatched packets and remove none. -/
theorem dispatched_deliver
    (cur : LinkId) (w : World A) (s t : SessionId) :
    (w.dispatched t).length ≤
      ((deliver env cur w s).world.dispatched t).length := by
  obtain ⟨closed, htrace⟩ := trace_deliver env cur w s
  by_cases hpasses : passes env w s (w.recvPacket s) = true
  · by_cases hts : t = s
    · subst hts
      rw [dispatched_deliver_of_passes env cur w t hpasses, List.length_append]
      exact Nat.le_add_right _ _
    · rw [if_pos hpasses] at htrace
      rw [World.dispatched_of_closed (w := (w.log (.examine s (w.recvPacket s))).log
        (.dispatch s (w.recvPacket s))) htrace t,
        World.dispatched_log_dispatch_of_ne _ _ hts, World.dispatched_log_examine]
  · rw [if_neg hpasses] at htrace
    rw [World.dispatched_of_closed (w := w.log (.examine s (w.recvPacket s))) htrace t,
      World.dispatched_log_examine]

/-- At least n packets were dispatched to session s. -/
def DispatchedTo (s : SessionId) (n : Nat) (w : World A) : Prop :=
  n ≤ (w.dispatched s).length

theorem isInvariant_dispatchedTo
    (s : SessionId) (n : Nat) :
    IsInvariant env (DispatchedTo s n) (DispatchedTo s n) where
  weaken := fun _ h => h
  mild := by
    intro w w' h hmild
    obtain ⟨closed, htrace⟩ := hmild.trace
    rw [DispatchedTo, World.dispatched_of_closed htrace]
    exact h
  deliver_ok := by
    intro cur w t w' h _ hdeliver
    have hgrow := dispatched_deliver env cur w t s
    rw [hdeliver] at hgrow
    exact Nat.le_trans h hgrow
  deliver_world := fun cur w t h _ =>
    Nat.le_trans h (dispatched_deliver env cur w t s)
  accept := fun _ _ _ h _ _ => h

/-- A property that the delivery of the second frame establishes holds behind
the loop. -/
theorem recvLoop_rule
    {I : World A → Prop} {l : LinkId} {s : SessionId}
    {w₀ w₂ w₃ : World A} {g : Frame} {rest : List UInt8}
    (hI : IsInvariant env I I)
    (hround : recvRound env l s w₀ = .inl w₂)
    (hholds : Holds w₂ s (g.bytes ++ rest))
    (hdeliver : I (deliver env l w₂ s).world)
    (hloop : recvLoop env l s w₀ = .ok w₃) :
    I w₃ := by
  have hrun : ∃ n, WhileLoop.run (recvRound env l s) n w₂ =
      some (.ok w₃) := by
    refine ⟨(w₀.recvPacket s).size, ?_⟩
    simp only [recvLoop, WhileLoop.run_continue hround] at hloop
    split at hloop
    · rename_i r hr
      rw [hr, hloop]
    · cases hloop
  obtain ⟨n, hrun⟩ := hrun
  cases n with
  | zero =>
      cases hrun
  | succ n =>
      rcases recvRound_of_frame_cases env hholds l with
        ⟨w₄, hreturns, hround₂⟩ | hround₂
      · rw [hreturns, Outcome.world_ok] at hdeliver
        cases hnext : advance env l w₄ s g.length with
        | inl w₅ =>
            rw [hnext] at hround₂
            rw [WhileLoop.run_continue hround₂] at hrun
            exact WhileLoop.run_rule I (fun r => r.Keeps I I)
              (fun _ _ hs hround => recvRound_keeps_inl hI hs hround)
              (fun _ _ hs hround => recvRound_keeps_inr hI hs hround) n
              (hI.mild _ _ hdeliver (mild_advance env hnext)) hrun
        | inr r =>
            rw [hnext] at hround₂
            rw [WhileLoop.run_done hround₂] at hrun
            cases hrun
            exact hI.mild _ _ hdeliver (mild_advance_end env hnext)
      · rw [WhileLoop.run_done hround₂, Option.some.injEq] at hrun
        rw [hrun] at hdeliver
        exact hdeliver

variable {w : World A} {l : LinkId} {s other : SessionId} {f : Frame}

/-- When a read carries another frame behind the Reconnect_Req, with a higher
number, the loop dispatches that frame to the old session: whatever is read
afterwards, the stream is not kept. -/
theorem reconnect_joined
    {u bytes rest : List UInt8} {g : Frame} {gs : List Frame}
    {later : List (List UInt8)} {w' : World A}
    (htcp : env.kind = .tcp)
    (hpool : ∀ n, (env.pool n).isSome)
    (h : Receiving w l s u)
    (hvalid : ValidReconnect env w s f other)
    (hfits : u.length + bytes.length ≤ Buffer.maxSize)
    (hbytes : u ++ bytes = f.bytes ++ (g.bytes ++ rest))
    (hseq : f.seq < g.seq)
    (hcalls : onRecvMsgs env l w (bytes :: later) = .ok w') :
    ¬ StreamKept s other f gs w w' := by
  obtain ⟨w₀, hcall, h₀, hidle⟩ := onRecvMsg_start env h hfits
  rw [hbytes] at h₀
  obtain ⟨w₁, hdeliver₁, hholds₁, hseq₁, hover⟩ :=
    deliver_reconnect env htcp h₀ (hvalid.idle env hidle)
  have hrest : g.bytes ++ rest ≠ [] := by
    intro hnil
    have hpos : 0 < g.bytes.length := g.length_pos
    rw [(List.append_eq_nil_iff.mp hnil).1] at hpos
    exact absurd hpos (Nat.lt_irrefl 0)
  obtain ⟨data, hdata⟩ := Option.isSome_iff_exists.mp (hpool w₁.created)
  obtain ⟨w₂, hadvance, hholds₂, hadvanced, _⟩ :=
    advance_more env l (drop_of_front hholds₁) hrest hdata
  have hround₁ : recvRound env l s w₀ = .inl w₂ := by
    rw [recvRound_of_frame env h₀.toHolds, hdeliver₁]
    exact hadvance
  have hpasses : passes env w₂ s (w₂.recvPacket s) = true := by
    rw [passes_of_front env hholds₂, hadvanced.msgSeq_eq, hseq₁]
    simp only [Kind.accepts, htcp, hseq, decide_true]
  have hdispatched₂ : (w₂.dispatched s).length =
      (w.dispatched s).length + 1 := by
    obtain ⟨p, hp, _⟩ := hover.dispatched
    rw [World.dispatched_of_trace_eq hadvanced.trace, hp, List.length_append,
      World.dispatched_of_trace_eq hidle.trace]
    rfl
  -- the second round dispatches g, and nothing is taken back afterwards
  have hI := isInvariant_dispatchedTo env s ((w.dispatched s).length + 2)
  have hdeliver₂ : DispatchedTo s ((w.dispatched s).length + 2)
      (deliver env l w₂ s).world := by
    rw [DispatchedTo, dispatched_deliver_of_passes env l w₂ s hpasses,
      List.length_append, hdispatched₂]
    exact Nat.le_refl _
  obtain ⟨w₃, hreturn, hlater⟩ :
      ∃ w₃, onRecvMsg env l w bytes = .ok w₃ ∧
        onRecvMsgs env l w₃ later = .ok w' := by
    rw [onRecvMsgs_cons] at hcalls
    exact Outcome.bind_eq_ok hcalls
  have hw₃ : DispatchedTo s ((w.dispatched s).length + 2) w₃ := by
    rw [hcall] at hreturn
    exact recvLoop_rule env hI hround₁ hholds₂ hdeliver₂ hreturn
  have hw' := onRecvMsgs_keeps_invariant hI (l := l) later hw₃
  rw [hlater] at hw'
  intro hkept
  obtain ⟨p, hp, _⟩ := hkept.request
  have htwo : (w.dispatched s).length + 2 ≤ (w'.dispatched s).length := hw'
  rw [hp, List.length_append] at htwo
  exact absurd htwo (Nat.not_succ_le_self _)

/-- A message for the application handler, as the client writes it. -/
def silentReq : Frame :=
  Frame.write 3 100 [] emptyBody_fits

/-- The Reconnect_Req and this message in one read: all that is asked of the
stream holds, but the message does not reach the restored session alone. -/
theorem reconnect_joined_silentReq :
    run Env.silent (World.initial ()) rejoinSteps =
        .ok (World.rejoining Env.silent ()) ∧
      Receiving (World.rejoining Env.silent ()) 1 1 [] ∧
      ValidReconnect Env.silent (World.rejoining Env.silent ()) 1 reconnectReq
        0 ∧
      KeepingFrames Env.silent (fun _ => True) 1 0
        ((World.rejoining Env.silent ()).sessions 0).msgSeq [silentReq] ∧
      Framing.FitsIn Buffer.maxSize
        ([reconnectReq, silentReq].map Frame.length) 0
        [(reconnectReq.bytes ++ silentReq.bytes).length] ∧
      ¬ ∃ w', onRecvMsgs Env.silent 1 (World.rejoining Env.silent ())
          [reconnectReq.bytes ++ silentReq.bytes] = .ok w' ∧
        StreamKept 1 0 reconnectReq [silentReq]
          (World.rejoining Env.silent ()) w' := by
  obtain ⟨hrun, hrejoining⟩ := run_silent
  refine ⟨hrun, hrejoining.receiving, validReconnect_silent, ?_, by decide, ?_⟩
  · intro f hf
    have hf' := List.mem_singleton.mp (mem_of_mem_accepted hf)
    rw [hf']
    refine ⟨.user silentHandler, rfl, ?_⟩
    apply keeps_of_onlySends
    · intro w _
      exact ⟨(), rfl⟩
    · intro w packet c hc
      cases hc
  · rintro ⟨w', hcalls, hkept⟩
    have hbytes : [] ++ (reconnectReq.bytes ++ silentReq.bytes) =
        reconnectReq.bytes ++ (silentReq.bytes ++ []) := by
      rw [List.nil_append, List.append_nil]
    exact reconnect_joined Env.silent rfl (fun _ => rfl)
      hrejoining.receiving validReconnect_silent (by decide)
      hbytes (by decide) hcalls hkept

end JoinedReads

end Tcp
end Gamnet
