import Gamnet.Router.MsgRouter
import Gamnet.Tcp.PacketRead

/-!
# A router process

The link manager of a router is the receive loop with the handlers of
RouterHandler. Its application state is the router with the calls of handler
functions that Router::Dispatcher has made.

A packet for Router::Dispatcher is built from the inner bytes of a SendMsg_Ntf.
They come from the other process: the length in the inner header is compared
with nothing.
-/

namespace Gamnet
namespace Router

open Tcp (headerSize Packet DecodesOwn)
open LittleEndian

/-- The environment of a router process: that of its handlers, the memory
behind the array of a packet, and whether a pool of handler objects has one left
at its nth use. -/
structure Host extends Env where
  beyond : Nat → UInt8
  spare : Nat → Bool

/-- A client session: whether it has a link, and the message ids for which its
container has a handler. -/
structure Client where
  attached : Bool
  handlers : Nat → Bool

/-- The application state of a router process: the router, its client sessions,
the calls of handler functions in order, the packets whose client session has to
be looked up, with the router session to ask, the uses of the pools of handler
objects, and the crash of a handler, if any. -/
structure Server where
  router : World
  clients : ClientId → Client
  calls : List (Address × Packet)
  asking : List (SessionId × Address × Packet)
  asked : Nat
  crashed : Option Crash

section Handlers

variable (host : Host)

/-- Packet::Load of a message of MsgRouter.idl. -/
def readMsg (name : String) (known : name ∈ msgRouterNames) (packet : Packet) :
    Option Idlc.Value :=
  loaded (packet.read host.beyond (msgSerializer name known).load)

/-- The fields of a SendMsg_Ntf, if the packet can be read as one. -/
def readNtf (packet : Packet) : Option (Nat × List UInt8) :=
  (readMsg host "MsgRouter_SendMsg_Ntf" sendMsgNtf_declared packet).bind fieldsOfNtf

/-- What Recv_SendMsg_Ntf hands to Router::Dispatcher: the address of the sender
with the number of the envelope, and a packet of the pool with the inner bytes
appended. -/
def handed (w : World) (s : SessionId) (ntf : Option (Nat × List UInt8)) :
    Option (Address × Packet) :=
  match ntf with
  | none => none
  | some (msgSeq, buffer) =>
      match w.tables.uni (w.sessions s).address.key with
      | none => none
      | some _ =>
          match (createPacket host.toEnv w).1 with
          | none => none
          | some packet =>
              match packet.append buffer with
              | .error _ => none
              | .ok packet =>
                  some ({ (w.sessions s).address with msgSeq := msgSeq % 2 ^ 32 }, packet)

/-- The router session that Router::Dispatcher asks for the client session. -/
def askedSession (w : World) (addr : Address) : Option SessionId :=
  if addr.castType = Address.uniCast then w.tables.uni addr.key else none

/-- The call of a handler function in Router::Dispatcher::OnRecvMsg. A find
factory has no handler without a client session, which is looked up first. -/
def callHandler (x : Server) (addr : Address) (packet : Packet) : Server :=
  match host.factory packet.getID with
  | none => x
  | some .find =>
      match askedSession x.router addr with
      | none => x
      | some r => { x with asking := x.asking ++ [(r, addr, packet)] }
  | some .static => { x with calls := x.calls ++ [(addr, packet)] }
  | some .create =>
      if host.spare x.asked then
        { x with calls := x.calls ++ [(addr, packet)], asked := x.asked + 1 }
      else { x with asked := x.asked + 1 }

/-- Take the handler for a message id out of the container of a client session. -/
def Server.takeHandler (x : Server) (client : ClientId) (msgId : Nat) : Server :=
  { x with
    clients :=
      Function.update x.clients client
        { x.clients client with
          handlers := Function.update (x.clients client).handlers msgId false } }

/-- The rest of Router::Dispatcher::OnRecvMsg for the kth packet of a find
factory: the waiting client session is taken out of the router session, and its
handler is called on the strand of its link. -/
def Server.findSession (x : Server) (k : Nat) : Server :=
  match x.asking[k]? with
  | none => x
  | some (r, addr, packet) =>
      let router := { x.router with finding := x.router.finding.erase (r, addr.msgSeq) }
      let x' :=
        { x with
          router := Router.findSession router r addr.msgSeq
          asking := x.asking.eraseIdx k }
      match (x.router.sessions r).waiting addr.msgSeq with
      | none => x'
      | some entry =>
          if (x.clients entry.client).attached then
            if (x.clients entry.client).handlers packet.getID then
              { x'.takeHandler entry.client packet.getID with
                calls := x.calls ++ [(addr, packet)] }
            else x'
          else { x' with crashed := some .nullLink }

/-- The state behind a handler that may crash. -/
def Server.after (x : Server) (r : Except Crash World) : Server :=
  match r with
  | .error c => { x with crashed := some c }
  | .ok router => { x with router := router }

/-- RouterHandler::Recv_SendMsg_Ntf of a process. -/
def serveSendMsgNtf (x : Server) (s : SessionId) (packet : Packet) : Server :=
  let ntf := readNtf host packet
  let x' := x.after (recvSendMsgNtf host.toEnv x.router s ntf)
  match handed host x.router s ntf with
  | none => x'
  | some (addr, packet) => callHandler host x' addr packet

/-- RouterHandler::Recv_SetAddress_Req of a process. -/
def serveSetAddressReq (x : Server) (s : SessionId) (packet : Packet) : Server :=
  let req :=
    (readMsg host "MsgRouter_SetAddress_Req" setAddressReq_declared packet).bind addressOfReq
  { x with router := recvSetAddressReq host.toEnv x.router s req }

/-- RouterHandler::Recv_SetAddress_Ans of a process. -/
def serveSetAddressAns (x : Server) (s : SessionId) (packet : Packet) : Server :=
  let ans :=
    (readMsg host "MsgRouter_SetAddress_Ans" setAddressAns_declared packet).bind addressOfAns
  x.after (recvSetAddressAns host.toEnv x.router s ans)

/-- RouterHandler::Recv_SetAddress_Ntf of a process. -/
def serveSetAddressNtf (x : Server) (s : SessionId) (_ : Packet) : Server :=
  x.after (recvSetAddressNtf x.router s)

/-- RouterHandler::Recv_HeartBeat_Ntf. -/
def serveHeartBeatNtf (x : Server) (_ : SessionId) (_ : Packet) : Server :=
  x

/-- The router with the links that the link manager has attached. -/
def attachedServer (w : Tcp.World Server) : Server :=
  { w.app with
    router :=
      { w.app.router with
        sessions := fun t =>
          { w.app.router.sessions t with attached := (w.sessions t).link.isSome } } }

/-- A member function of RouterHandler behind HandlerStatic. -/
def staticHandler (f : Server → SessionId → Packet → Server) : Tcp.UserHandler Server where
  getHandler w _ := some w.app
  function w s packet := { app := f (attachedServer w) s packet, commands := [], throws := false }

/-- The handlers that Router::LinkManager::Listen registers. -/
def routerHandlers (msgId : Nat) : Option (Tcp.Handler Server) :=
  if msgId = msgIdSetAddressReq then some (.user (staticHandler (serveSetAddressReq host)))
  else if msgId = msgIdSetAddressAns then some (.user (staticHandler (serveSetAddressAns host)))
  else if msgId = msgIdSetAddressNtf then some (.user (staticHandler serveSetAddressNtf))
  else if msgId = msgIdSendMsgNtf then some (.user (staticHandler (serveSendMsgNtf host)))
  else if msgId = msgIdHeartBeatNtf then some (.user (staticHandler serveHeartBeatNtf))
  else none

/-- The link manager of a router process. -/
def Host.manager : Tcp.Env Server where
  kind := .router
  pool := host.pool
  token := fun _ _ => ""
  parse := fun _ => .malformed
  handlers := routerHandlers host
  onAccept := fun x _ => { app := x, commands := [], throws := false }
  onClose := fun x s => (x.after (onClose x.router s), false)

end Handlers

section Envelopes

variable {host : Host} {w : World} {s : SessionId}
variable {ntf : Option (Nat × List UInt8)} {addr : Address} {packet : Packet}

/-- What is handed on holds the inner bytes at the front of a packet of the
pool. -/
theorem handed_eq
    (h : handed host w s ntf = some (addr, packet)) :
    ∃ msgSeq buffer, ntf = some (msgSeq, buffer) ∧
      addr = { (w.sessions s).address with msgSeq := msgSeq % 2 ^ 32 } ∧
      packet.unread = buffer ∧ packet.readCursor = 0 := by
  cases ntf with
  | none =>
      cases h
  | some fields =>
      obtain ⟨msgSeq, buffer⟩ := fields
      simp only [handed] at h
      split at h
      · cases h
      · split at h
        · cases h
        · rename_i fresh hfresh
          split at h
          · cases h
          · rename_i filled hfilled
            cases h
            have hempty : fresh.unread = [] ∧ fresh.readCursor = 0 := by
              simp only [createPacket] at hfresh
              split at hfresh
              · cases hfresh
              · cases hfresh
                exact ⟨Packet.ofStorage_unread _, rfl⟩
            have hfits : fresh.size + buffer.length ≤ Buffer.maxSize := by
              by_contra hlong
              obtain ⟨e, he⟩ := (Packet.append_error_iff fresh buffer).mpr
                (Nat.lt_of_not_le hlong)
              rw [hfilled] at he
              cases he
            obtain ⟨q, hq, hunread, hread⟩ := Packet.append_spec hfits
            rw [hfilled] at hq
            cases hq
            refine ⟨msgSeq, buffer, rfl, rfl, ?_, hread hempty.2⟩
            rw [hunread, hempty.1, List.nil_append]

/-- What is handed on is dispatched. -/
theorem recvSendMsgNtf_of_handed
    (h : handed host w s ntf = some (addr, packet)) :
    recvSendMsgNtf host.toEnv w s ntf =
      .ok (dispatch host.toEnv (createPacket host.toEnv w).2 addr packet) := by
  cases ntf with
  | none =>
      cases h
  | some fields =>
      obtain ⟨msgSeq, buffer⟩ := fields
      simp only [handed] at h
      split at h
      · cases h
      · rename_i hknown
        split at h
        · cases h
        · rename_i fresh hfresh
          split at h
          · cases h
          · rename_i filled hfilled
            cases h
            rcases hcreate : createPacket host.toEnv w with ⟨created, w'⟩
            rw [hcreate] at hfresh
            simp only at hfresh
            simp only [recvSendMsgNtf, hknown, hcreate, hfresh, hfilled]

/-- The body of a SendMsg_Ntf. -/
def ntfBody (msgSeq : Nat) (buffer : List UInt8) : List UInt8 :=
  encode 4 msgSeq ++ (encode 4 buffer.length ++ buffer)

@[simp] theorem ntfBody_length
    (msgSeq : Nat) (buffer : List UInt8) :
    (ntfBody msgSeq buffer).length = 8 + buffer.length := by
  simp only [ntfBody, List.length_append, encode_length]
  omega

/-- A SendMsg_Ntf that was written is read. -/
theorem readNtf_of_written
    {outerSeq outerId msgSeq : Nat}
    {buffer : List UInt8}
    (hread : packet.readCursor = 0)
    (hunread : packet.unread = Tcp.written outerSeq outerId (ntfBody msgSeq buffer))
    (hseq : msgSeq < 2 ^ 32)
    (hlen : headerSize + (ntfBody msgSeq buffer).length < Buffer.maxSize) :
    readNtf host packet = some (msgSeq, buffer) := by
  have hbuffer : buffer.length < 2 ^ 32 := by
    rw [ntfBody_length] at hlen
    unfold Buffer.maxSize at hlen
    omega
  obtain ⟨c, hload⟩ := Tcp.read_of_written host.beyond hlen hread hunread
    (ntf_reads hseq hbuffer)
  simp only [readNtf, readMsg, hload, loaded, Option.bind_some]
  rfl

/-- A buffer that fits is handed on when the sender is registered. -/
theorem handed_of_registered
    {msgSeq : Nat} {buffer : List UInt8} {r : SessionId}
    (hknown : w.tables.uni (w.sessions s).address.key = some r)
    (hpool : (host.pool w.created).isSome)
    (hfits : buffer.length ≤ Buffer.maxSize) :
    ∃ packet, handed host w s (some (msgSeq, buffer)) =
      some ({ (w.sessions s).address with msgSeq := msgSeq % 2 ^ 32 }, packet) := by
  obtain ⟨data, hdata⟩ := Option.isSome_iff_exists.mp hpool
  have hroom : (Packet.ofStorage data).size + buffer.length ≤ Buffer.maxSize := by
    rw [Packet.ofStorage_size, Nat.zero_add]
    exact hfits
  obtain ⟨packet, happend, _⟩ := Packet.append_spec hroom
  refine ⟨packet, ?_⟩
  simp only [handed, hknown, createPacket, hdata, happend]

/-- The inner bytes are long enough for a header, and for the length in it. -/
def WellFramed (buffer : List UInt8) : Prop :=
  headerSize ≤ buffer.length ∧
    headerSize ≤ wordAt 0 2 buffer ∧ wordAt 0 2 buffer ≤ buffer.length

/-- A packet with some bytes at its front holds the frame that it announces
exactly when the bytes are well framed. -/
theorem holdsFrame_iff
    {buffer : List UInt8}
    (hunread : packet.unread = buffer)
    (hread : packet.readCursor = 0) :
    packet.HoldsFrame ↔ WellFramed buffer := by
  have hsize : packet.size = buffer.length := by
    rw [← Buffer.unread_length, hunread]
  constructor
  · rintro ⟨hheader, hwhole⟩
    have hlen : headerSize ≤ packet.unread.length := by
      rw [Buffer.unread_length]
      omega
    rw [Packet.getLength_eq hread hlen, hunread] at hheader hwhole
    rw [hunread] at hlen
    rw [hsize] at hwhole
    exact ⟨hlen, hheader, hwhole⟩
  · rintro ⟨hlen, hheader, hwhole⟩
    rw [← hunread] at hlen hheader hwhole
    rw [← Packet.getLength_eq hread hlen] at hheader hwhole
    rw [Buffer.unread_length] at hwhole
    exact ⟨hheader, hwhole⟩

/-- The handlers of both link managers on the packets of any run, and the
handlers behind Router::Dispatcher on any message: a handler is given a packet
that holds its frame and decodes bytes of the frame only, except for
Recv_Reconnect_Req, and except where the inner bytes of a SendMsg_Ntf are not
well framed. -/
theorem decodesOwn_runs_iff
    {A : Type} (env : Tcp.Env A) (app : A) (steps : List Tcp.Step)
    (host : Host) (w : World) (s : SessionId) :
    (∀ (packet : Packet) (h : Tcp.Handler A),
      Tcp.Event.dispatch s packet ∈ (Tcp.run env (Tcp.World.initial app) steps).world.trace →
        env.handlers packet.getID = some h →
          (DecodesOwn packet (h.window packet) ↔ h ≠ .reconnectReq)) ∧
    (∀ (outer inner : Packet) (addr : Address),
      handed host w s (readNtf host outer) = some (addr, inner) →
        ∃ msgSeq buffer, readNtf host outer = some (msgSeq, buffer) ∧
          (DecodesOwn inner (some inner.readWindow) ↔ WellFramed buffer)) := by
  constructor
  · intro packet h hdispatch _
    exact Tcp.decodesOwn_iff h (Tcp.run_dispatchesFrames env app steps s packet hdispatch)
  · intro outer inner addr hhanded
    obtain ⟨msgSeq, buffer, hntf, _, hunread, hread⟩ := handed_eq hhanded
    refine ⟨msgSeq, buffer, hntf, ?_⟩
    rw [Tcp.readWindow_decodesOwn_iff]
    exact holdsFrame_iff hunread hread

/-- A Reconnect_Req without a body. -/
def emptyReconnectReq : Tcp.Frame :=
  Tcp.Frame.write 1 Tcp.msgIdReconnectReq [] Tcp.emptyBody_fits

/-- A host whose handlers are all static. -/
def staticHost : Host where
  pool := fun _ => some Tcp.freshStorage
  factory := fun _ => some .static
  beyond := fun _ => 0
  spare := fun _ => true

/-- A router to which every address is registered. -/
def openRouter : World :=
  { World.initial Address.default with
    tables := { uni := fun _ => some 0, multi := fun _ => none, any := fun _ => none } }

/-- A packet that carries a SendMsg_Ntf. -/
def ntfPacket (msgSeq : Nat) (buffer : List UInt8) : Packet :=
  (Tcp.freshPacket.writeBody 0 msgIdSendMsgNtf (ntfBody msgSeq buffer).length
    (ntfBody msgSeq buffer) true).packet

/-- The definition as an equation of functions. Applied to arguments, it would be checked
by evaluating Write. -/
theorem ntfPacket_eq :
    ntfPacket = fun msgSeq buffer =>
      (Tcp.freshPacket.writeBody 0 msgIdSendMsgNtf (ntfBody msgSeq buffer).length
        (ntfBody msgSeq buffer) true).packet := by
  delta ntfPacket
  rfl

theorem ntfPacket_apply
    (msgSeq : Nat) (buffer : List UInt8) :
    ntfPacket msgSeq buffer =
      (Tcp.freshPacket.writeBody 0 msgIdSendMsgNtf (ntfBody msgSeq buffer).length
        (ntfBody msgSeq buffer) true).packet := by
  rw [ntfPacket_eq]

theorem readNtf_ntfPacket
    {msgSeq : Nat} {buffer : List UInt8}
    (hseq : msgSeq < 2 ^ 32)
    (hlen : headerSize + (ntfBody msgSeq buffer).length < Buffer.maxSize) :
    readNtf host (ntfPacket msgSeq buffer) = some (msgSeq, buffer) := by
  obtain ⟨hread, hunread⟩ := (@Tcp.writeBody_of_lt Tcp.freshPacket 0 msgIdSendMsgNtf
    (ntfBody msgSeq buffer).length (ntfBody msgSeq buffer) hlen rfl true).2 rfl
  rw [ntfPacket_apply]
  exact readNtf_of_written hread hunread hseq hlen

/-- A read of one frame by a manager that has accepted one link. -/
theorem run_greeted_recv
    (f : Tcp.Frame)
    (hseq : 0 < f.seq) :
    ∃ packet, Tcp.Shows packet f ∧ Tcp.Event.dispatch 0 packet ∈
      (Tcp.run Tcp.Env.bare (Tcp.World.initial ())
        [.accept 0 (some 0), .recv 0 f.bytes]).world.trace := by
  have haccepts : Tcp.Kind.tcp.accepts
      ((Tcp.World.greeted Tcp.Env.bare ()).sessions 0).msgSeq f = true := by
    rw [Tcp.greeted_msgSeq Tcp.Env.bare () rfl]
    exact decide_eq_true hseq
  obtain ⟨packet, hshows, hdispatch⟩ := Tcp.dispatch_mem_of_read Tcp.Env.bare
    (Tcp.greeted_receiving Tcp.Env.bare () rfl) haccepts
  refine ⟨packet, hshows, ?_⟩
  have hgreeted := Tcp.run_greeted Tcp.Env.bare () rfl
  have hrun : Tcp.run Tcp.Env.bare (Tcp.World.initial ())
      ([.accept 0 (some 0)] ++ [.recv 0 f.bytes]) =
        Tcp.onRecvMsg Tcp.Env.bare 0 (Tcp.World.greeted Tcp.Env.bare ()) f.bytes := by
    simp only [Tcp.run, List.foldl_append] at hgreeted ⊢
    rw [hgreeted]
    rfl
  rw [List.singleton_append] at hrun
  rw [hrun]
  exact hdispatch

/-- A heartbeat, and an envelope with three bytes in it. -/
theorem decodesOwn_runs_heartBeat :
    (∃ packet, DecodesOwn packet ((Tcp.Handler.heartBeatReq : Tcp.Handler Unit).window packet)) ∧
      ∃ inner : Packet, ¬ DecodesOwn inner (some inner.readWindow) := by
  obtain ⟨packet, hshows, hdispatch⟩ := run_greeted_recv (Tcp.heartBeatReq 1) (by decide)
  have hid : packet.getID = Tcp.msgIdHeartBeatReq :=
    hshows.getID.trans (Tcp.Frame.write_id _ (by decide))
  have hhandler : Tcp.Env.bare.handlers packet.getID = some .heartBeatReq := by
    rw [hid]
    rfl
  obtain ⟨hown, henvelope⟩ := decodesOwn_runs_iff Tcp.Env.bare ()
    [.accept 0 (some 0), .recv 0 (Tcp.heartBeatReq 1).bytes] staticHost openRouter 0
  refine ⟨⟨packet, (hown packet .heartBeatReq hdispatch hhandler).mpr (by simp)⟩, ?_⟩
  have hntf : readNtf staticHost (ntfPacket 7 [1, 2, 3]) = some (7, [1, 2, 3]) :=
    readNtf_ntfPacket (by decide) (by decide)
  obtain ⟨inner, hinner⟩ : ∃ packet, handed staticHost openRouter 0 (some (7, [1, 2, 3])) =
      some ({ (openRouter.sessions 0).address with msgSeq := 7 % 2 ^ 32 }, packet) :=
    handed_of_registered rfl rfl (by decide)
  rw [← hntf] at hinner
  obtain ⟨msgSeq, buffer, hfields, hiff⟩ := henvelope (ntfPacket 7 [1, 2, 3]) inner _ hinner
  rw [hntf] at hfields
  cases hfields
  exact ⟨inner, fun hown => absurd (hiff.mp hown).1 (by decide)⟩

/-- The text of a Reconnect_Req is taken from behind its frame. -/
theorem reconnectReq_not_own :
    ∃ packet : Packet,
      Tcp.Event.dispatch 0 packet ∈
        (Tcp.run Tcp.Env.bare (Tcp.World.initial ())
          [.accept 0 (some 0), .recv 0 emptyReconnectReq.bytes]).world.trace ∧
      Tcp.Env.bare.handlers packet.getID = some .reconnectReq ∧
      ¬ DecodesOwn packet ((Tcp.Handler.reconnectReq : Tcp.Handler Unit).window packet) := by
  obtain ⟨packet, hshows, hdispatch⟩ := run_greeted_recv emptyReconnectReq (by decide)
  have hid : packet.getID = Tcp.msgIdReconnectReq :=
    hshows.getID.trans (Tcp.Frame.write_id _ (by decide))
  refine ⟨packet, hdispatch, ?_, ?_⟩
  · rw [hid]
    rfl
  · have hframe := Tcp.run_dispatchesFrames Tcp.Env.bare () _ 0 packet hdispatch
    rw [Tcp.decodesOwn_iff _ hframe]
    simp

end Envelopes

end Router
end Gamnet
