import Gamnet.Tcp.Packet
import Mathlib.Logic.Function.Basic

/-!
# The state of a link manager

Links, sessions and packets are objects that refer to one another by pointer;
here they are maps from identities to records. A packet can be shared by two
sessions, so a session holds the identity of its recv_packet and the packets
form a heap.

`World` also records what can be observed of a run: the answers handed to
AsyncSend, and a trace of the accepted sessions, of the frames that the receive
loop examines and dispatches, and of the links that are closed.

An attachment request for a link of another strand runs at once when that
strand is free and is queued on it otherwise.
-/

namespace Gamnet
namespace Tcp

abbrev LinkId : Type := Nat
abbrev SessionId : Type := Nat
abbrev PacketId : Type := Nat

/-- A link: its socket, the attached session, and the AttachSession closures
that wait on its strand. -/
structure Link where
  isOpen : Bool
  session : Option SessionId
  busy : Bool
  closures : List (Option SessionId)

/-- The fields of a session that the framework reads and writes. -/
structure Session where
  sessionKey : Nat
  sessionToken : String
  expireTime : Nat
  link : Option LinkId
  msgSeq : Nat
  recvPacket : PacketId

/-- Something handed to AsyncSend. The JSON answers carry their fields. -/
inductive Message
  | connectAns (msgSeq errorCode sessionKey : Nat) (sessionToken : String)
  | reconnectAns (msgSeq sessionKey : Nat) (sessionToken : String)
      (otherSeq : Nat)
  | reconnectError (msgSeq errorCode : Nat)
  | heartBeatAns (msgSeq errorCode answered : Nat)
  | bytes (buf : List UInt8)
deriving DecidableEq

/-- What can be observed of a run. -/
inductive Event
  | accept (s : SessionId)
  | examine (s : SessionId) (packet : Packet)
  | dispatch (s : SessionId) (packet : Packet)
  | close (l : LinkId)

/-- The state of a link manager with application state A. The trace lists the
latest event first. -/
structure World (A : Type) where
  links : LinkId → Link
  sessions : SessionId → Session
  packets : PacketId → Packet
  created : PacketId
  registry : Nat → Option SessionId
  keys : Nat
  tokens : Nat
  now : Nat
  sent : List (LinkId × Message)
  trace : List Event
  app : A

namespace World

variable {A : Type}

/-- Overwrite a link. -/
def setLink (w : World A) (l : LinkId) (x : Link) : World A :=
  { w with links := Function.update w.links l x }

/-- Overwrite a session. -/
def setSession (w : World A) (s : SessionId) (x : Session) : World A :=
  { w with sessions := Function.update w.sessions s x }

/-- Overwrite a packet. -/
def setPacket (w : World A) (p : PacketId) (x : Packet) : World A :=
  { w with packets := Function.update w.packets p x }

/-- Append an event to the trace. -/
def log (w : World A) (e : Event) : World A :=
  { w with trace := e :: w.trace }

/-- Hand a message to the send queue of a link. -/
def send (w : World A) (l : LinkId) (m : Message) : World A :=
  { w with sent := (l, m) :: w.sent }

/-- The packet into which a session receives. -/
def recvPacket (w : World A) (s : SessionId) : Packet :=
  w.packets (w.sessions s).recvPacket

@[simp] theorem setLink_links
    (w : World A) (l : LinkId) (x : Link) :
    (w.setLink l x).links = Function.update w.links l x := by
  rfl

@[simp] theorem setLink_sessions
    (w : World A) (l : LinkId) (x : Link) :
    (w.setLink l x).sessions = w.sessions := by
  rfl

@[simp] theorem setLink_packets
    (w : World A) (l : LinkId) (x : Link) :
    (w.setLink l x).packets = w.packets := by
  rfl

@[simp] theorem setLink_trace
    (w : World A) (l : LinkId) (x : Link) :
    (w.setLink l x).trace = w.trace := by
  rfl

@[simp] theorem setSession_links
    (w : World A) (s : SessionId) (x : Session) :
    (w.setSession s x).links = w.links := by
  rfl

@[simp] theorem setSession_sessions
    (w : World A) (s : SessionId) (x : Session) :
    (w.setSession s x).sessions = Function.update w.sessions s x := by
  rfl

@[simp] theorem setSession_packets
    (w : World A) (s : SessionId) (x : Session) :
    (w.setSession s x).packets = w.packets := by
  rfl

@[simp] theorem setSession_trace
    (w : World A) (s : SessionId) (x : Session) :
    (w.setSession s x).trace = w.trace := by
  rfl

@[simp] theorem setPacket_links
    (w : World A) (p : PacketId) (x : Packet) :
    (w.setPacket p x).links = w.links := by
  rfl

@[simp] theorem setPacket_sessions
    (w : World A) (p : PacketId) (x : Packet) :
    (w.setPacket p x).sessions = w.sessions := by
  rfl

@[simp] theorem setPacket_packets
    (w : World A) (p : PacketId) (x : Packet) :
    (w.setPacket p x).packets = Function.update w.packets p x := by
  rfl

@[simp] theorem setPacket_trace
    (w : World A) (p : PacketId) (x : Packet) :
    (w.setPacket p x).trace = w.trace := by
  rfl

@[simp] theorem setLink_created
    (w : World A) (l : LinkId) (x : Link) :
    (w.setLink l x).created = w.created := by
  rfl

@[simp] theorem setSession_created
    (w : World A) (s : SessionId) (x : Session) :
    (w.setSession s x).created = w.created := by
  rfl

@[simp] theorem setPacket_created
    (w : World A) (p : PacketId) (x : Packet) :
    (w.setPacket p x).created = w.created := by
  rfl

@[simp] theorem log_created
    (w : World A) (e : Event) :
    (w.log e).created = w.created := by
  rfl

@[simp] theorem log_links
    (w : World A) (e : Event) :
    (w.log e).links = w.links := by
  rfl

@[simp] theorem log_sessions
    (w : World A) (e : Event) :
    (w.log e).sessions = w.sessions := by
  rfl

@[simp] theorem log_packets
    (w : World A) (e : Event) :
    (w.log e).packets = w.packets := by
  rfl

@[simp] theorem log_trace
    (w : World A) (e : Event) :
    (w.log e).trace = e :: w.trace := by
  rfl

end World

/-- How a manager closes a session: the Tcp manager only detaches it, the
Router manager also removes it from the session registry. -/
inductive Kind
  | tcp
  | router
deriving DecidableEq

/-- Result of reading the JSON text of a Reconnect_Req: the text is no JSON
document, a field has the wrong type, or the two fields are there. -/
inductive ReconnectReq
  | malformed
  | badField
  | request (sessionKey : Nat) (sessionToken : String)
deriving DecidableEq

/-- A framework call made by application code. -/
inductive Command
  | onError (l : LinkId)
  | attachSession (l : LinkId) (s : Option SessionId)
  | send (s : SessionId) (buf : List UInt8)

/-- What an application handler or callback does: its new state, the framework
calls it makes, and whether it ends by throwing a std::exception. -/
structure Reaction (A : Type) where
  app : A
  commands : List Command
  throws : Bool

/-- An application handler: the factory that returns the handler instance, or
nothing, and the handler function. -/
structure UserHandler (A : Type) where
  getHandler : World A → SessionId → Option A
  function : World A → SessionId → Packet → Reaction A

/-- The handlers that a dispatcher knows: those of Tcp::LinkManager itself and
those of the application. -/
inductive Handler (A : Type)
  | connectReq
  | reconnectReq
  | heartBeatReq
  | user (u : UserHandler A)

/-- The code and the libraries around a link manager: the packet pool (which
may be exhausted), the token generator, the JSON reader, the registered handlers
and the callbacks of the session class. The OnClose callback returns whether it
threw. -/
structure Env (A : Type) where
  kind : Kind
  pool : PacketId → Option Packet.Storage
  token : Nat → Nat → String
  parse : List UInt8 → ReconnectReq
  handlers : Nat → Option (Handler A)
  onAccept : A → SessionId → Reaction A
  onClose : A → SessionId → A × Bool

section Links

variable {A : Type} (env : Env A)

/-- Packet::Create. -/
def createPacket (w : World A) : Option (PacketId × World A) :=
  match env.pool w.created with
  | none => none
  | some data =>
      some (w.created,
        { w.setPacket w.created (Packet.ofStorage data) with
          created := w.created + 1 })

/-- A packet that is created is the next one of the heap, with the storage of the pool. -/
theorem createPacket_eq_some
    {w w' : World A} {p : PacketId}
    (hcreate : createPacket env w = some (p, w')) :
    p = w.created ∧ ∃ data,
      w' = { w.setPacket w.created (Packet.ofStorage data) with created := w.created + 1 } := by
  unfold createPacket at hcreate
  split at hcreate
  · cases hcreate
  · rename_i data _
    cases hcreate
    exact ⟨rfl, data, rfl⟩

/-- The session of a link, if any, forgets its link. -/
def releaseSession (w : World A) (l : LinkId) : World A :=
  match (w.links l).session with
  | none => w
  | some old => w.setSession old { w.sessions old with link := none }

/-- The closure of Link::AttachSession: detach the old session, attach the new
one. -/
def attachClosure
    (w : World A) (l : LinkId) (session : Option SessionId) : World A :=
  let w := releaseSession w l
  let w := w.setLink l { w.links l with session := session }
  match session with
  | none => w
  | some s => w.setSession s { w.sessions s with link := some l }

/-- Link::AttachSession, called while the strand of link cur is held. -/
def attachSession
    (cur : LinkId) (w : World A) (l : LinkId) (session : Option SessionId) :
    World A :=
  if l = cur ∨ (w.links l).busy = false then attachClosure w l session
  else
    w.setLink l
      { w.links l with closures := (w.links l).closures ++ [session] }

/-- SessionManager::Remove in the OnClose of the Router manager. -/
def unregister (w : World A) (s : SessionId) : World A :=
  match env.kind with
  | .tcp => w
  | .router =>
      { w with
        registry :=
          Function.update w.registry (w.sessions s).sessionKey none }

/-- LinkManager::OnClose; the flag tells whether the session callback threw. -/
def onClose (cur : LinkId) (w : World A) (l : LinkId) : World A × Bool :=
  match (w.links l).session with
  | none => (w, false)
  | some s =>
      match env.onClose w.app s with
      | (app, true) => ({ w with app := app }, true)
      | (app, false) =>
          (attachSession cur (unregister env { w with app := app } s) l none,
            false)

/-- Link::OnError: notify the manager, then close the socket. An exception of
the session callback is caught here. -/
def onError (cur : LinkId) (w : World A) (l : LinkId) : World A :=
  if (w.links l).isOpen = false then w
  else
    let w := (onClose env cur w l).1
    (w.setLink l { w.links l with isOpen := false }).log (.close l)

/-- One framework call of a handler. -/
def command (cur : LinkId) (w : World A) : Command → World A
  | .onError l => onError env cur w l
  | .attachSession l s => attachSession cur w l s
  | .send s buf =>
      match (w.sessions s).link with
      | none => w
      | some l => w.send l (.bytes buf)

end Links

end Tcp
end Gamnet
