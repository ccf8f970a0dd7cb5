import Gamnet.Lib.WhileLoop
import Gamnet.Unity.Buffer
import Mathlib.Logic.Function.Basic

/-!
# The session of the client

OnReceive adds a read to the receive buffer and calls the handlers of the
packets in it. A handler is given a copy of all unread bytes behind the header,
not of its own packet alone. SendMsg numbers a message and queues its packet.

The functions of the application are a parameter. They may change everything
but the receive buffer, and they may throw.
-/

namespace Gamnet
namespace Unity

open LittleEndian

/-- Packet.HEADER_SIZE. -/
def headerSize : Nat := 10

/-- Session.ConnectionState. -/
inductive ConnectionState
  | disconnected
  | onConnecting
  | connected
deriving DecidableEq

/-- The error codes that the session raises. -/
inductive ErrorCode
  | bufferOverflowError
  | unhandledMsgError
  | undefinedError
deriving DecidableEq

/-- A buffer that starts with a header, and the fields of that header. -/
structure Packet extends Buffer where
  length : Nat
  msgSeq : UInt32
  msgId : UInt32
  reliable : Bool

namespace Packet

/-- A new Packet with the fields of its header set. -/
def header (length : Nat) (msgSeq msgId : UInt32) (reliable : Bool) : Packet where
  data :=
    Gamnet.Buffer.overwrite
      (Gamnet.Buffer.overwrite
        (Gamnet.Buffer.overwrite Buffer.empty.data 0 (encode 2 length))
        2 (encode 4 msgSeq.toNat))
      6 (encode 4 msgId.toNat)
  readIndex := 0
  writeIndex := headerSize
  data_length := by
    simp only [Gamnet.Buffer.overwrite_length, Buffer.empty.data_length]
  read_le_write := Nat.zero_le _
  write_le_size := by decide
  length := length
  msgSeq := msgSeq
  msgId := msgId
  reliable := reliable

/-- Append on a packet. -/
def append (p : Packet) (bytes : List UInt8) : Except String Packet :=
  match p.toBuffer.append bytes with
  | .error e => .error e
  | .ok buffer => .ok { p with toBuffer := buffer }

/-- The bytes that BeginSend is given: Size() bytes from the front. -/
def bytes (p : Packet) : List UInt8 :=
  p.data.take p.size

end Packet

/-- What can be observed of a session: the errors it raises, the calls of its
handlers, each with the bytes of the stream, and the exceptions that leave
OnReceive. -/
inductive Event
  | error (code : ErrorCode) (message : String)
  | dispatch (msgId : UInt32) (stream : List UInt8)
  | thrown (message : String)
deriving DecidableEq

/-- The part of a session that the application can change. The monitor counts
the timers of a message id. A delegate is the list of its functions. -/
structure Open (F : Type) where
  state : ConnectionState
  timers : UInt32 → Nat
  handlers : UInt32 → List F
  msgSeq : UInt32
  sendQueue : List Packet
  sendQueueIdx : Int

/-- A session on which Connect was called. -/
structure Session (F : Type) extends Open F where
  recvBuff : Buffer
  trace : List Event

/-- What a function does: the session it leaves, the errors it raises, its
position in the stream, and the exception it may end with. -/
structure Reaction (F : Type) where
  after : Open F
  errors : List (ErrorCode × String)
  position : Nat
  thrown : Option String

/-- The functions of the application. -/
abbrev React (F : Type) : Type :=
  F → List UInt8 → Nat → Open F → Reaction F

/-- What the calls of the socket throw. -/
structure Socket where
  beginConnect : Option String
  beginSend : Option String

/-- A message as SendMsg sees it: its MSG_ID, what Store writes to the stream,
and what Size returns. -/
structure Msg where
  msgId : UInt32
  stored : List UInt8
  size : Int

/-- A cast to ushort. -/
def ushort (n : Int) : Nat :=
  (n % 2 ^ 16).toNat

namespace Session

variable {F : Type}

/-- Append an event to the trace. -/
def log (s : Session F) (e : Event) : Session F :=
  { s with trace := s.trace ++ [e] }

/-- Error. -/
def error (s : Session F) (code : ErrorCode) (message : String) : Session F :=
  s.log (.error code message)

section Receive

variable (react : React F)

/-- TimeoutMonitor.UnsetTimeout. -/
def unsetTimeout (s : Session F) (msgId : UInt32) : Session F :=
  { s with timers := Function.update s.timers msgId (s.timers msgId - 1) }

/-- Call the functions of a delegate one after the other on one stream, until
one of them throws. -/
def invoke (stream : List UInt8) :
    Nat → List F → Session F → Session F × Option String
  | _, [], s => (s, none)
  | position, f :: handler, s =>
      let r := react f stream position s.toOpen
      let s :=
        { s with
          toOpen := r.after
          trace := s.trace ++ r.errors.map fun e => .error e.1 e.2 }
      match r.thrown with
      | some e => (s, some e)
      | none => invoke stream r.position handler s

/-- The call of a handler in OnReceive, with its catch clause. -/
def handle (s : Session F) (msgId : UInt32) (handler : List F) (stream : List UInt8) :
    Session F :=
  match invoke react stream 0 handler (s.log (.dispatch msgId stream)) with
  | (s, none) => s
  | (s, some e) => s.error .undefinedError e

/-- One round of the loop of OnReceive. -/
def receiveRound (s : Session F) : Session F ⊕ Session F :=
  let buff := s.recvBuff
  if buff.size < headerSize then .inr s
  else
    let packetLength := wordAt (buff.readIndex + 0) 2 buff.data
    if bufferSize < packetLength then
      .inr (s.error .bufferOverflowError
        "The packet length is greater than the buffer max length.")
    else if henough : packetLength ≤ buff.size then
      let msgId := UInt32.ofNat (wordAt (buff.readIndex + 6) 4 buff.data)
      match s.handlers msgId with
      | [] =>
          .inr (s.error .unhandledMsgError
            ("can't find registered msg(id:" ++ toString msgId ++ ")"))
      | f :: fs =>
          let s := handle react (s.unsetTimeout msgId) msgId (f :: fs)
            (buff.unread.drop headerSize)
          .inl { s with recvBuff := buff.skip packetLength henough }
    else .inr s

/-- OnReceive, with a bound on the rounds of its loop. If the bytes do not fit,
the exception leaves it, and the receive buffer stays as it is. -/
def onReceive (fuel : Nat) (s : Session F) (buf : Buffer) : Option (Session F) :=
  match s.recvBuff.add buf with
  | .error e => some (s.log (.thrown e))
  | .ok buff => WhileLoop.run (receiveRound react) fuel { s with recvBuff := buff }

end Receive

section Send

variable (socket : Socket)

/-- Reconnect. -/
def reconnect (s : Session F) : Session F × Option String :=
  if s.state = .disconnected then
    ({ s with state := .onConnecting }, socket.beginConnect)
  else (s, none)

/-- SendMsg of a packet. It is sent at once if nothing waits in front of it. -/
def sendPacket (s : Session F) (packet : Packet) : Session F × Option String :=
  let s := { s with sendQueue := s.sendQueue ++ [packet] }
  if (s.sendQueue.length : Int) - s.sendQueueIdx = 1 ∧ s.state = .connected then
    (s, socket.beginSend)
  else (s, none)

/-- Send_HeartBeat_Req, with the id 3. -/
def sendHeartBeatReq (s : Session F) : Session F × Option String :=
  let s := { s with msgSeq := s.msgSeq + 1 }
  s.sendPacket socket (.header headerSize s.msgSeq 3 true)

/-- The catch clause of SendMsg. -/
def caught (r : Session F × Option String) : Session F :=
  match r with
  | (s, none) => s
  | (s, some e) => s.error .undefinedError e

/-- The statements of SendMsg behind the check of the length. -/
def sendBody (s : Session F) (packetLength : Nat) (msg : Msg) (handOverRelility : Bool) :
    Session F × Option String :=
  let s := { s with msgSeq := s.msgSeq + 1 }
  match (Packet.header packetLength s.msgSeq msg.msgId handOverRelility).append msg.stored with
  | .error e => (s, some e)
  | .ok packet =>
      match s.sendPacket socket packet with
      | (s, some e) => (s, some e)
      | (s, none) =>
          if s.msgSeq.toNat % 10 = 0 ∧ s.state = .connected then
            s.sendHeartBeatReq socket
          else (s, none)

/-- SendMsg of a message. -/
def sendMsg (s : Session F) (msg : Msg) (handOverRelility : Bool) : Session F :=
  caught <|
    match s.reconnect socket with
    | (s, some e) => (s, some e)
    | (s, none) =>
        let packetLength := ushort (headerSize + msg.size)
        if bufferSize < packetLength then
          (s, some ("Overflow the send buffer max size : " ++ toString packetLength))
        else s.sendBody socket packetLength msg handOverRelility

end Send

end Session

end Unity
end Gamnet
