import Gamnet.Tcp.World

/-!
# Message handlers and the dispatcher

`dispatch` is Tcp::Dispatcher::OnRecvMsg. It looks the message id up, obtains a
handler instance from the factory and runs the handler function. An unknown id
and a missing instance both close the link of the session; the link pointer of
the session is used without a check.

The three handlers of Tcp::LinkManager::MsgHandler follow the source statement
by statement. Each of them evaluates session->link->link_key for its log line,
so it crashes when the session has no link.
-/

namespace Gamnet
namespace Tcp

/-- Ways in which a call does not return. -/
inductive Crash
  | bufferOverflow (e : Exception)
  | nullLink
  | nullHandlerLink
  | nullPacket
  | hang
deriving DecidableEq

/-- Result of a call: it returns, it throws a std::exception, or the process
dies. -/
inductive Outcome (A : Type)
  | ok (w : World A)
  | throws (w : World A)
  | crash (c : Crash) (w : World A)

namespace Outcome

variable {A : Type}

/-- The state in which a call ends. -/
def world : Outcome A → World A
  | ok w => w
  | throws w => w
  | crash _ w => w

/-- The catch clause of the dispatcher: it logs the exception and goes on. -/
def caught : Outcome A → Outcome A
  | throws w => ok w
  | r => r

/-- Run the next statement unless the call has ended. -/
def bind (r : Outcome A) (k : World A → Outcome A) : Outcome A :=
  match r with
  | ok w => k w
  | throws w => throws w
  | crash c w => crash c w

@[simp] theorem bind_ok
    (w : World A) (k : World A → Outcome A) :
    (ok w).bind k = k w := by
  rfl

@[simp] theorem bind_throws
    (w : World A) (k : World A → Outcome A) :
    (throws w).bind k = throws w := by
  rfl

@[simp] theorem bind_crash
    (c : Crash) (w : World A) (k : World A → Outcome A) :
    (crash c w).bind k = crash c w := by
  rfl

@[simp] theorem world_ok
    (w : World A) :
    (ok w).world = w := by
  rfl

@[simp] theorem world_throws
    (w : World A) :
    (throws w).world = w := by
  rfl

@[simp] theorem world_crash
    (c : Crash) (w : World A) :
    (crash c w).world = w := by
  rfl

@[simp] theorem caught_world
    (r : Outcome A) :
    r.caught.world = r.world := by
  cases r <;> rfl

/-- Statements behind one another: the first one runs, and the others behind
it. -/
theorem foldl_bind
    {β : Type} (k : World A → β → Outcome A) (r : Outcome A)
    (xs : List β) :
    xs.foldl (fun r x => r.bind fun w => k w x) r =
      r.bind fun w => xs.foldl (fun r x => r.bind fun w => k w x) (ok w) := by
  cases r with
  | ok w =>
      rfl
  | throws w =>
      induction xs with
      | nil =>
          rfl
      | cons x xs ih =>
          exact ih
  | crash c w =>
      induction xs with
      | nil =>
          rfl
      | cons x xs ih =>
          exact ih

/-- A call that returns has returned from its first statement. -/
theorem bind_eq_ok
    {r : Outcome A} {k : World A → Outcome A} {w : World A}
    (h : r.bind k = ok w) :
    ∃ w₁, r = ok w₁ ∧ k w₁ = ok w := by
  cases r with
  | ok w₁ =>
      exact ⟨w₁, rfl, h⟩
  | throws w₁ =>
      cases h
  | crash c w₁ =>
      cases h

/-- A last statement that always returns keeps what holds where the call
ends. -/
theorem world_bind
    {R : World A → Prop} {f : World A → World A} {r : Outcome A}
    (hf : ∀ w, R w → R (f w))
    (h : R r.world) :
    R (r.bind fun w => ok (f w)).world := by
  cases r with
  | ok w =>
      exact hf w h
  | throws w =>
      exact h
  | crash c w =>
      exact h

/-- A last statement that always returns is not where a call dies. -/
theorem bind_eq_crash
    {r : Outcome A} {f : World A → World A} {c : Crash} {w : World A}
    (h : (r.bind fun w => ok (f w)) = crash c w) :
    r = crash c w := by
  cases r with
  | ok w₁ =>
      cases h
  | throws w₁ =>
      cases h
  | crash c₁ w₁ =>
      exact h

end Outcome

section Handlers

variable {A : Type} (env : Env A)

/-- SessionManager::Add. A session that is registered already stays. -/
def addSession (w : World A) (key : Nat) (s : SessionId) : World A :=
  match w.registry key with
  | some _ => w
  | none =>
      { w.setSession s { w.sessions s with expireTime := w.now } with
        registry := Function.update w.registry key (some s) }

/-- Link::AsyncSend of a freshly created answer packet; nothing is sent when
the pool is exhausted. -/
def linkAnswer (w : World A) (l : LinkId) (m : Message) : World A :=
  match createPacket env w with
  | none => w
  | some (_, w) => w.send l m

/-- Session::Send of a JSON answer; nothing is sent without a link. -/
def sessionAnswer (w : World A) (s : SessionId) (m : Message) : World A :=
  match (w.sessions s).link with
  | none =>
      match createPacket env w with
      | none => w
      | some (_, w) => w
  | some l => linkAnswer env w l m

/-- Session::GenerateSessionToken, stored in a session. -/
def renewToken (w : World A) (s : SessionId) : World A :=
  { w.setSession s
      { w.sessions s with
        sessionToken := env.token w.tokens (w.sessions s).sessionKey } with
    tokens := w.tokens + 1 }

/-- The framework calls of an application handler or callback, in order. -/
def runCommands (cur : LinkId) (w : World A) (cs : List Command) : World A :=
  cs.foldl (command env cur) w

/-- Application code: its framework calls, and the exception it may end with. -/
def react (cur : LinkId) (w : World A) (r : Reaction A) : Outcome A :=
  let w := runCommands env cur { w with app := r.app } r.commands
  if r.throws then .throws w else .ok w

/-- MsgHandler::Recv_Connect_Req. -/
def recvConnectReq (cur : LinkId) (w : World A) (s : SessionId) : Outcome A :=
  match (w.sessions s).link with
  | none => .crash .nullHandlerLink w
  | some _ =>
      let w := renewToken env w s
      let x := w.sessions s
      let w := addSession w x.sessionKey s
      let w :=
        sessionAnswer env w s
          (.connectAns x.msgSeq ErrorCode.success.value x.sessionKey
            x.sessionToken)
      react env cur w (env.onAccept w.app s)

/-- The text that Recv_Reconnect_Req hands to the JSON reader: Size() bytes
that start behind the header. -/
def reconnectText (packet : Packet) : List UInt8 :=
  (packet.data.drop (packet.readCursor + headerSize)).take packet.size

/-- The catch clause of Recv_Reconnect_Req and the error answer. -/
def rejectReconnect
    (cur : LinkId) (w : World A) (s : SessionId) (l : LinkId)
    (code : ErrorCode) : World A :=
  let w := attachSession cur w l none
  linkAnswer env w l (.reconnectError (w.sessions s).msgSeq code.value)

/-- The link of the other session, if any, detaches it. -/
def leaveLink (cur : LinkId) (w : World A) (other : SessionId) : World A :=
  match (w.sessions other).link with
  | none => w
  | some old => attachSession cur w old none

/-- The body of Recv_Reconnect_Req for a valid key and token: take the other
session over and answer on the new link. -/
def acceptReconnect
    (cur : LinkId) (w : World A) (s : SessionId) (l : LinkId)
    (other : SessionId) : World A :=
  let w := leaveLink cur w other
  let w :=
    w.setSession other
      { w.sessions other with recvPacket := (w.sessions s).recvPacket }
  let w := renewToken env w other
  let w := attachSession cur w l (some other)
  let x := w.sessions other
  linkAnswer env w l
    (.reconnectAns (w.sessions s).msgSeq x.sessionKey x.sessionToken x.msgSeq)

/-- MsgHandler::Recv_Reconnect_Req. -/
def recvReconnectReq
    (cur : LinkId) (w : World A) (s : SessionId) (packet : Packet) :
    Outcome A :=
  match (w.sessions s).link with
  | none => .crash .nullHandlerLink w
  | some l =>
      match env.parse (reconnectText packet) with
      | .malformed => .ok (rejectReconnect env cur w s l .messageFormatError)
      | .badField => .throws w
      | .request key token =>
          match w.registry key with
          | none => .ok (rejectReconnect env cur w s l .connectTimeoutError)
          | some other =>
              if (w.sessions other).sessionToken ≠ token then
                .ok (rejectReconnect env cur w s l .invalidSessionTokenError)
              else .ok (acceptReconnect env cur w s l other)

/-- MsgHandler::Recv_HeartBeat_Req. -/
def recvHeartBeatReq (w : World A) (s : SessionId) : Outcome A :=
  match (w.sessions s).link with
  | none => .crash .nullHandlerLink w
  | some _ =>
      let x := w.sessions s
      .ok
        (sessionAnswer env w s
          (.heartBeatAns x.msgSeq ErrorCode.success.value x.msgSeq))

/-- An application handler function. -/
def recvUser
    (cur : LinkId) (u : UserHandler A) (w : World A) (s : SessionId)
    (packet : Packet) : Outcome A :=
  react env cur w (u.function w s packet)

/-- GetHandler of the factory; the handlers of the manager are static. -/
def getHandler (h : Handler A) (w : World A) (s : SessionId) : Option A :=
  match h with
  | .user u => u.getHandler w s
  | _ => some w.app

/-- The handler function registered for a message id. -/
def runHandler
    (cur : LinkId) (h : Handler A) (w : World A) (s : SessionId)
    (packet : Packet) : Outcome A :=
  match h with
  | .connectReq => recvConnectReq env cur w s
  | .reconnectReq => recvReconnectReq env cur w s packet
  | .heartBeatReq => recvHeartBeatReq env w s
  | .user u => recvUser env cur u w s packet

/-- The handler function and instance for a message id, if there are both. -/
def findHandler (w : World A) (s : SessionId) (msgId : Nat) :
    Option (Handler A × A) :=
  match env.handlers msgId with
  | none => none
  | some h =>
      match getHandler h w s with
      | none => none
      | some app => some (h, app)

/-- The branches of Dispatcher::OnRecvMsg that find no handler: they close the
link of the session. -/
def noHandler (cur : LinkId) (w : World A) (s : SessionId) : Outcome A :=
  match (w.sessions s).link with
  | none => .crash .nullLink w
  | some l => .ok (onError env cur w l)

/-- The message ids of Tcp::LinkManager::MsgHandler. -/
def msgIdConnectReq : Nat := 1

def msgIdReconnectReq : Nat := 2

def msgIdHeartBeatReq : Nat := 3

/-- The handlers that Tcp::LinkManager::Listen registers, next to those of the
application. -/
def listenHandlers (user : Nat → Option (UserHandler A)) (msgId : Nat) :
    Option (Handler A) :=
  if msgId = msgIdConnectReq then some .connectReq
  else if msgId = msgIdReconnectReq then some .reconnectReq
  else if msgId = msgIdHeartBeatReq then some .heartBeatReq
  else (user msgId).map .user

/-- Dispatcher::OnRecvMsg. -/
def dispatch (cur : LinkId) (w : World A) (s : SessionId) (packet : Packet) :
    Outcome A :=
  let w := w.log (.dispatch s packet)
  match findHandler env w s packet.getID with
  | none => noHandler env cur w s
  | some (h, app) =>
      (runHandler env cur h { w with app := app } s packet).caught

end Handlers

end Tcp
end Gamnet
