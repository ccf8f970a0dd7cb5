import Gamnet.Library.Exception
import Gamnet.Router.RouterCaster

/-!
# Router messages and the runs of a router

The handlers of RouterHandler, the end of a router session, and the steps of a
router: a message that arrives, a session that opens or closes, the parts of a
SendMsg call, and the sweeps and clears of the waiting tables.

A SendMsg call takes its number at once, enters its caster in a later step, and
sends each copy in a step of its own: the waiting tables have locks of their own,
so that a reply, a sweep or a clear can come between two copies. The lock of
RouterCaster, which the call holds until its last copy, is not asked for: the runs
of the code are among those here. A reply that is for a waiting client looks the
router session up in one step and the client session in a later one. The
callbacks of the application return; the framework calls that they make are steps
of their own.
-/

namespace Gamnet
namespace Router

open Tcp (headerSize)

/-- IHandlerFactory::HANDLER_FACTORY_TYPE. -/
inductive FactoryType
  | create
  | static
  | find
deriving DecidableEq

/-- The packet pool, which may be exhausted, and the factories of the handlers
that the application registers with Router::Dispatcher. -/
structure Env where
  pool : Nat → Option Tcp.Packet.Storage
  factory : Nat → Option FactoryType

section Messages

variable (env : Env)

/-- Packet::Create. -/
def createPacket (w : World) : Option Tcp.Packet × World :=
  match env.pool w.created with
  | none => (none, { w with created := w.created + 1 })
  | some data =>
      (some (Tcp.Packet.ofStorage data), { w with created := w.created + 1 })

theorem createPacket_world
    (w : World) :
    (createPacket env w).2 = { w with created := w.created + 1 } := by
  unfold createPacket
  split <;> rfl

/-- Address::Size. -/
def Address.size (a : Address) : Nat :=
  4 + a.serviceName.length + 4 + 4 + 8

/-- Size of the generated message structs. -/
def Message.size : Message → Nat
  | .setAddressReq a => a.size
  | .setAddressAns _ a => 4 + a.size
  | .setAddressNtf => 0
  | .sendMsgNtf _ buffer => 4 + 4 + buffer.length

/-- The capacity test of Packet::Write, on a 16-bit length. -/
def Message.writable (m : Message) : Bool :=
  decide ((m.size + headerSize) % 2 ^ 16 < Buffer.maxSize)

/-- Tcp::SendMsg. -/
def sendMsg (w : World) (s : SessionId) (m : Message) : World :=
  match createPacket env w with
  | (none, w) => w
  | (some _, w) => if m.writable then sendTo w s m else w

theorem sendMsg_cases
    (w : World) (s : SessionId) (m : Message) :
    sendMsg env w s m = { w with created := w.created + 1 } ∨
      sendMsg env w s m = sendTo { w with created := w.created + 1 } s m := by
  have hcreate := createPacket_world env w
  unfold sendMsg
  split <;> rename_i heq <;> rw [heq] at hcreate <;> cases hcreate
  · exact .inl rfl
  · split
    · exact .inr rfl
    · exact .inl rfl

/-- Session::OnConnect. -/
def onConnect (w : World) (s : SessionId) : World :=
  let w := w.setSession s { w.sessions s with waiting := fun _ => none }
  sendMsg env w s (.setAddressReq w.localAddress)

/-- RouterHandler::Recv_SetAddress_Req. Nothing is given when the message cannot
be read. -/
def recvSetAddressReq (w : World) (s : SessionId) (req : Option Address) :
    World :=
  match req with
  | none =>
      sendMsg env w s
        (.setAddressAns ErrorCode.messageFormatError.value Address.default)
  | some localAddress =>
      if w.localAddress.same localAddress then
        sendMsg env w s
          (.setAddressAns ErrorCode.invalidAddressError.value Address.default)
      else
        let w :=
          w.setSession s { w.sessions s with address := localAddress }
        sendMsg env w s
          (.setAddressAns ErrorCode.success.value w.localAddress)

/-- Router::Session::OnClose, and what Router::LinkManager::OnClose does behind
it. -/
def onClose (w : World) (s : SessionId) : Except Crash World :=
  let finish := fun w : World =>
    w.setSession s
      { w.sessions s with attached := false, waiting := fun _ => none }
  let address := (w.sessions s).address
  if address.serviceName ≠ [] then
    match unregisterAddress w.sessions w.tables address with
    | .error e => .error e
    | .ok (_, t) => .ok (finish { w with tables := t })
  else .ok (finish w)

/-- RouterHandler::Recv_SetAddress_Ans. The result of RegisterAddress is
ignored. -/
def recvSetAddressAns (w : World) (s : SessionId)
    (ans : Option (Int × Address)) : Except Crash World :=
  match ans with
  | none => .ok w
  | some (errorCode, remoteAddress) =>
      if errorCode ≠ ErrorCode.success.value then
        if (w.sessions s).attached then onClose w s else .error .nullLink
      else
        match registerAddress w remoteAddress s with
        | .error e => .error e
        | .ok (_, w) =>
            if w.localAddress.same remoteAddress then .ok w
            else .ok (sendMsg env w s .setAddressNtf)

/-- RouterHandler::Recv_SetAddress_Ntf. A message without fields is always read,
and the result of RegisterAddress is ignored. -/
def recvSetAddressNtf (w : World) (s : SessionId) : Except Crash World :=
  match registerAddress w (w.sessions s).address s with
  | .error e => .error e
  | .ok (_, w) => .ok w

/-- Router::Dispatcher::OnRecvMsg, up to the point where it looks for a waiting
client session. -/
def dispatch (w : World) (addr : Address) (packet : Tcp.Packet) : World :=
  match env.factory packet.getID with
  | none => w
  | some factory =>
      if addr.castType = Address.uniCast ∧ factory = .find then
        match w.tables.uni addr.key with
        | none => w
        | some r => { w with finding := w.finding ++ [(r, addr.msgSeq)] }
      else w

/-- The dispatcher only starts look-ups. -/
theorem dispatch_eq
    (w : World) (addr : Address) (packet : Tcp.Packet) :
    ∃ finding, dispatch env w addr packet = { w with finding := finding } := by
  unfold dispatch
  split
  · exact ⟨w.finding, rfl⟩
  · split
    · split
      · exact ⟨w.finding, rfl⟩
      · exact ⟨_, rfl⟩
    · exact ⟨w.finding, rfl⟩

/-- RouterHandler::Recv_SendMsg_Ntf. The dispatcher of the link catches the
exception of Append. -/
def recvSendMsgNtf (w : World) (s : SessionId)
    (ntf : Option (Nat × List UInt8)) : Except Crash World :=
  match ntf with
  | none => .ok w
  | some (msgSeq, buffer) =>
      match w.tables.uni (w.sessions s).address.key with
      | none => .ok w
      | some _ =>
          let addr :=
            { (w.sessions s).address with msgSeq := msgSeq % 2 ^ 32 }
          match createPacket env w with
          | (none, _) => .error .nullPacket
          | (some packet, w) =>
              match packet.append buffer with
              | .error _ => .ok w
              | .ok packet => .ok (dispatch env w addr packet)

theorem recvSendMsgNtf_eq
    {w w' : World} {s : SessionId} {ntf : Option (Nat × List UInt8)}
    (hrecv : recvSendMsgNtf env w s ntf = .ok w') :
    ∃ created finding, w' = { w with created := created, finding := finding } := by
  have hcreate := createPacket_world env w
  unfold recvSendMsgNtf at hrecv
  split at hrecv
  · cases hrecv
    exact ⟨w.created, w.finding, rfl⟩
  split at hrecv
  · cases hrecv
    exact ⟨w.created, w.finding, rfl⟩
  split at hrecv
  · cases hrecv
  rename_i heq
  rw [heq] at hcreate
  cases hcreate
  split at hrecv <;> cases hrecv
  · exact ⟨w.created + 1, w.finding, rfl⟩
  · obtain ⟨finding, hfinding⟩ := dispatch_eq env { w with created := w.created + 1 } _ _
    exact ⟨w.created + 1, finding, hfinding⟩

/-- AnswerWatingSessionManager::FindSession on behalf of a reply that waits for
it. -/
def findSession (w : World) (r : SessionId) (msgSeq : Nat) : World :=
  match (w.sessions r).waiting msgSeq with
  | none => w
  | some x =>
      (w.setSession r
        { w.sessions r with
          waiting :=
            Function.update (w.sessions r).waiting msgSeq none }).log
        (.obtain r msgSeq x.client x.call)

/-- The timer of AnswerWatingSessionManager. -/
def sweep (w : World) (r : SessionId) : World :=
  w.setSession r
    { w.sessions r with
      waiting := fun msgSeq =>
        match (w.sessions r).waiting msgSeq with
        | none => none
        | some x => if x.time + 5 < w.now then none else some x }

/-- The rest of RouterCaster::SendMsg, up to the copies that the caster sends. -/
def finishSendMsg (w : World) (p : Pending) : Except Crash World :=
  match createPacket env w with
  | (none, w) => .ok w
  | (some _, w) =>
      if (Message.sendMsgNtf p.msgSeq p.buf).writable then cast w p else .ok w

theorem finishSendMsg_cases
    {w w' : World} {p : Pending}
    (hfinish : finishSendMsg env w p = .ok w') :
    w' = { w with created := w.created + 1 } ∨
      cast { w with created := w.created + 1 } p = .ok w' := by
  have hcreate := createPacket_world env w
  unfold finishSendMsg at hfinish
  split at hfinish <;> rename_i heq <;> rw [heq] at hcreate <;> cases hcreate
  · cases hfinish
    exact .inl rfl
  · split at hfinish
    · exact .inr hfinish
    · cases hfinish
      exact .inl rfl

end Messages

section Runs

variable (env : Env)

/-- The steps of a router. A session object is opened with the address that its
last user left in it; that the pool hands out unused objects only is not asked
for. -/
inductive Step
  | accept (s : SessionId)
  | connect (s : SessionId)
  | setAddressReq (s : SessionId) (req : Option Address)
  | setAddressAns (s : SessionId) (ans : Option (Int × Address))
  | setAddressNtf (s : SessionId)
  | sendMsgNtf (s : SessionId) (ntf : Option (Nat × List UInt8))
  | findSession (k : Nat)
  | close (s : SessionId)
  | startSendMsg (client : Option ClientId) (addr : Address)
      (buf : List UInt8)
  | finishSendMsg (k : Nat)
  | castNext
  | sweep (r : SessionId)
  | clear (r : SessionId)
  | tick (now : Nat)

/-- A link is attached to a session object that the pool hands out. -/
def openSession (w : World) (s : SessionId) : World :=
  w.setSession s { w.sessions s with attached := true }

/-- One step. -/
def step (w : World) : Step → Except Crash World
  | .accept s => .ok (openSession w s)
  | .connect s => .ok (onConnect env (openSession w s) s)
  | .setAddressReq s req => .ok (recvSetAddressReq env w s req)
  | .setAddressAns s ans => recvSetAddressAns env w s ans
  | .setAddressNtf s => recvSetAddressNtf w s
  | .sendMsgNtf s ntf => recvSendMsgNtf env w s ntf
  | .findSession k =>
      match w.finding[k]? with
      | none => .ok w
      | some (r, msgSeq) =>
          .ok (findSession { w with finding := w.finding.eraseIdx k } r msgSeq)
  | .close s =>
      if (w.sessions s).attached then onClose w s else .ok w
  | .startSendMsg client addr buf => .ok (startSendMsg w client addr buf)
  | .finishSendMsg k =>
      match w.pending[k]? with
      | none => .ok w
      | some p =>
          finishSendMsg env { w with pending := w.pending.eraseIdx k } p
  | .castNext => castNext w
  | .sweep r => .ok (sweep w r)
  | .clear r =>
      .ok (w.setSession r { w.sessions r with waiting := fun _ => none })
  | .tick now => .ok { w with now := now }

/-- A run: the steps in order, up to a crash. -/
def run (w : World) : List Step → Except Crash World
  | [] => .ok w
  | a :: steps =>
      match step env w a with
      | .error e => .error e
      | .ok w => run w steps

/-- A router that has no sessions yet. -/
def World.initial (localAddress : Address) : World where
  localAddress := localAddress
  sessions := fun _ =>
    { address := Address.default, attached := false, waiting := fun _ => none }
  tables :=
    { uni := fun _ => none, multi := fun _ => none, any := fun _ => none }
  msgSeq := 1
  now := 0
  created := 0
  calls := []
  pending := []
  casting := []
  finding := []
  sent := []
  trace := []

end Runs

end Router
end Gamnet
