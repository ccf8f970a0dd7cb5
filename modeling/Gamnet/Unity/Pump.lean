import Gamnet.Lib.Transition
import Gamnet.Unity.Session

/-!
# The send queue of the client and its connections

SendMsg queues a packet, and begins to send it if nothing waits in front of it. The completion
of a send goes on with the rest of the packet, or with the next one. A reliable packet stays
in the queue in front of the index until an answer to a heartbeat removes it, and Reconnect
sends the whole queue again. SendMsg is that of a session (`sendMsg_same`).

One event is one call or callback. The sockets are numbered as they are created; the completion
of a send on another socket than the current one is an exception, and nothing is changed. What
the network does is part of the events. The server processes what was handed to a socket, and
its answers wait in the event queue.
-/

namespace Gamnet
namespace Unity

namespace Packet

/-- Move the read index over what was written. A packet without unread bytes is not read any
more, however many there were. -/
def skip (p : Packet) (n : Nat) : Packet :=
  { p with toBuffer := p.toBuffer.skip (min n p.size) (Nat.min_le_right _ _) }

/-- Set the read index to the front. -/
def rewind (p : Packet) : Packet :=
  { p with
    readIndex := 0
    read_le_write := Nat.zero_le _ }

/-- The bytes that BeginSend is given for a copy of the packet. -/
def copied (p : Packet) : List UInt8 :=
  match p.toBuffer.copy with
  | .error _ => []
  | .ok b => b.data.take b.size

theorem bytes_of_unsent
    {packet : Packet}
    (h : packet.readIndex = 0) :
    packet.bytes = packet.unread := by
  simp only [bytes, Buffer.unread, h, List.drop_zero]

/-- The copy of a packet has its unread bytes at the front. -/
theorem copied_eq
    (packet : Packet) :
    packet.copied = packet.unread := by
  obtain ⟨b, hcopy, hunread, hwrite⟩ := packet.toBuffer.copy_spec
  have hsize : b.size = packet.size := by
    rw [← Buffer.unread_length, hunread, Buffer.unread_length]
  have hle := b.read_le_write
  have hdef : b.size = b.writeIndex - b.readIndex := rfl
  have hread : b.readIndex = 0 ∨ b.size = 0 := by
    omega
  simp only [copied, hcopy]
  rw [← hunread]
  rcases hread with hread | hread
  · simp only [Buffer.unread, hread, List.drop_zero]
  · simp only [Buffer.unread, hread, List.take_zero]

theorem header_readIndex
    (length : Nat) (msgSeq msgId : UInt32) (reliable : Bool) :
    (Packet.header length msgSeq msgId reliable).readIndex = 0 :=
  rfl

/-- Append does not move the read index. -/
theorem append_readIndex
    {packet packet' : Packet} {bytes : List UInt8}
    (h : packet.append bytes = .ok packet') :
    packet'.readIndex = packet.readIndex := by
  unfold append at h
  split at h
  · cases h
  · rename_i b happend
    cases h
    unfold Buffer.append at happend
    split_ifs at happend <;> cases happend <;> rfl

theorem skip_unread
    (packet : Packet) (n : Nat) :
    (packet.skip n).unread = packet.unread.drop (min n packet.size) :=
  Buffer.skip_unread _ _ (Nat.min_le_right _ _)

theorem skip_size
    (packet : Packet) (n : Nat) :
    (packet.skip n).size = packet.size - n := by
  rw [← Buffer.unread_length, skip_unread, List.length_drop, Buffer.unread_length]
  omega

end Packet

/-- A send that was begun and has not completed. -/
structure Operation where
  socket : Nat
  bytes : List UInt8
deriving DecidableEq

/-- What the start of a connection comes to: BeginConnect was called, it threw, or the name of
the host was not resolved. -/
inductive Connecting
  | started
  | refused
  | unresolved
deriving DecidableEq

/-- The fields of a session that its connections and its send queue depend on, the sockets
that are being connected, and the sends. There is an endpoint or a timer if they are not null.
On the other side are the msg_seqs of the packets that were handed to a socket, the highest
one that the server has processed, and its answers. -/
structure Client where
  state : ConnectionState
  socket : Option Nat
  endpoint : Bool
  timer : Bool
  msgSeq : UInt32
  sendQueue : List Packet
  sendQueueIdx : Int
  created : Nat
  connects : List Nat
  reconnects : List Nat
  sends : List Operation
  beating : Bool
  handed : List UInt32
  processed : UInt32
  answers : List UInt32

namespace Client

/-- A new session. -/
def new : Client where
  state := .disconnected
  socket := none
  endpoint := false
  timer := false
  msgSeq := 0
  sendQueue := []
  sendQueueIdx := 0
  created := 0
  connects := []
  reconnects := []
  sends := []
  beating := false
  handed := []
  processed := 0
  answers := []

/-- The packet at the index. -/
def current (s : Client) : Option Packet :=
  if s.sendQueueIdx < 0 then none else s.sendQueue[s.sendQueueIdx.toNat]?

/-- BeginSend of the bytes of a packet, and whether it did not throw. -/
def beginSend (s : Client) (bytes : List UInt8) (msgSeq : UInt32) (throws : Bool) :
    Client × Bool :=
  match s.socket, throws with
  | some socket, false =>
      ({ s with
        sends := s.sends ++ [{ socket := socket, bytes := bytes }]
        handed := s.handed ++ [msgSeq] }, true)
  | _, _ => (s, false)

/-- BeginSend of the packet at the index. -/
def beginCurrent (s : Client) (throws : Bool) : Client × Bool :=
  match s.current with
  | none => (s, false)
  | some packet => s.beginSend packet.bytes packet.msgSeq throws

/-- SendMsg of a packet. -/
def sendPacket (s : Client) (packet : Packet) (throws : Bool) : Client × Bool :=
  let s := { s with sendQueue := s.sendQueue ++ [packet] }
  if (s.sendQueue.length : Int) - s.sendQueueIdx = 1 ∧ s.state = .connected then
    s.beginCurrent throws
  else (s, true)

/-- Send_Connect_Req and Send_HeartBeat_Req. -/
def sendRequest (s : Client) (msgId : UInt32) (reliable : Bool) (throws : Bool) : Client × Bool :=
  let s := { s with msgSeq := s.msgSeq + 1 }
  s.sendPacket (.header headerSize s.msgSeq msgId reliable) throws

/-- Close. An exception behind that changes nothing more. -/
def close (s : Client) : Client :=
  { s with state := .disconnected }

/-- Connect. The server has a new session for it. -/
def connect (s : Client) (outcome : Connecting) : Client :=
  let s := { s with
    state := .onConnecting
    socket := none
    endpoint := false
    timer := false
    msgSeq := 0
    sendQueue := []
    sendQueueIdx := 0
    handed := []
    processed := 0 }
  match outcome with
  | .unresolved => s
  | .refused => { s with endpoint := true }
  | .started =>
      { s with
        endpoint := true
        timer := true
        created := s.created + 1
        connects := s.connects ++ [s.created] }

/-- Callback_Connect. Without a timer its Stop throws. -/
def callbackConnect (s : Client) (socket : Nat) (connected throws : Bool) : Option Client :=
  if socket ∈ s.connects then
    let s := { s with connects := s.connects.erase socket, socket := some socket }
    if connected ∧ s.timer then
      match { s with state := .connected }.sendRequest 1 false throws with
      | (s, true) => some { s with beating := true }
      | (s, false) => some s.close
    else some s.close
  else none

/-- Reconnect. -/
def reconnect (s : Client) (throws : Bool) : Client × Bool :=
  if s.state = .disconnected then
    let s := { s with state := .onConnecting }
    if s.endpoint ∧ throws = false then
      ({ s with
        timer := true
        created := s.created + 1
        reconnects := s.reconnects ++ [s.created] }, true)
    else (s, false)
  else (s, true)

/-- Callback_Reconnect with the text of its request, behind the stop of the timer. An exception
of Append leaves it. -/
def resend (s : Client) (request : List UInt8) (throws : Bool) : Client :=
  let tmp := s.sendQueue
  let s := { s with
    state := .connected
    sendQueue := []
    sendQueueIdx := 0
    msgSeq := s.msgSeq + 1 }
  match (Packet.header (ushort (headerSize + request.length)) s.msgSeq 2 false).append request with
  | .error _ => s
  | .ok packet =>
      match s.sendPacket packet throws with
      | (s, false) => s.close
      | (s, true) =>
          { s with
            sendQueue := s.sendQueue ++ tmp.map Packet.rewind
            beating := true }

/-- Callback_Reconnect. Without a timer an exception leaves it. -/
def callbackReconnect (s : Client) (socket : Nat) (connected : Bool) (request : List UInt8)
    (throws : Bool) : Option Client :=
  if socket ∈ s.reconnects then
    let s := { s with reconnects := s.reconnects.erase socket, socket := some socket }
    if connected then
      if s.timer then some (s.resend request throws) else some s
    else some s.close
  else none

/-- SendMsg of a message behind Reconnect. -/
def sendBody (s : Client) (msg : Msg) (reliable throws : Bool) : Client :=
  let packetLength := ushort (headerSize + msg.size)
  if bufferSize < packetLength then s
  else
    let s := { s with msgSeq := s.msgSeq + 1 }
    match (Packet.header packetLength s.msgSeq msg.msgId reliable).append msg.stored with
    | .error _ => s
    | .ok packet =>
        match s.sendPacket packet throws with
        | (s, false) => s
        | (s, true) =>
            if s.msgSeq.toNat % 10 = 0 ∧ s.state = .connected then
              (s.sendRequest 3 true throws).1
            else s

/-- SendMsg of a message. -/
def sendMsg (s : Client) (msg : Msg) (reliable connectThrows throws : Bool) : Client :=
  match s.reconnect connectThrows with
  | (s, false) => s
  | (s, true) => s.sendBody msg reliable throws

/-- The index passes a reliable packet, and another one is removed. -/
def pass (s : Client) (packet : Packet) : Client :=
  if packet.reliable then
    { s with
      sendQueue := s.sendQueue.set s.sendQueueIdx.toNat packet
      sendQueueIdx := s.sendQueueIdx + 1 }
  else { s with sendQueue := s.sendQueue.eraseIdx s.sendQueueIdx.toNat }

/-- Callback_SendMsg behind EndSend: begin to send the rest of the packet, or the next one. -/
def advance (s : Client) (written : Nat) (throws : Bool) : Client :=
  match s.current with
  | none => s
  | some packet =>
      let packet := packet.skip written
      if 0 < packet.size then
        let s := { s with sendQueue := s.sendQueue.set s.sendQueueIdx.toNat packet }
        (s.beginSend packet.copied packet.msgSeq throws).1
      else
        let s := s.pass packet
        if s.sendQueueIdx < s.sendQueue.length then (s.beginCurrent throws).1 else s

/-- Callback_SendMsg. EndSend tells no more bytes than were given, or throws. -/
def callbackSendMsg (s : Client) (op : Nat) (written : Option Nat) (throws : Bool) :
    Option Client :=
  match s.sends[op]? with
  | none => none
  | some operation =>
      let s := { s with sends := s.sends.eraseIdx op }
      if s.socket = some operation.socket then
        match written with
        | none => some s
        | some n => some (s.advance (min n operation.bytes.length) throws)
      else some s

/-- The number of packets at the front that an answer acknowledges. -/
def acknowledged (s : Client) (msgSeq : UInt32) : Nat :=
  (s.sendQueue.takeWhile fun packet => packet.msgSeq ≤ msgSeq).length

/-- RemoveSentPacket. -/
def removeSentPacket (s : Client) (msgSeq : UInt32) : Client :=
  { s with
    sendQueue := s.sendQueue.drop (s.acknowledged msgSeq)
    sendQueueIdx := s.sendQueueIdx - s.acknowledged msgSeq }

end Client

/-- The calls and callbacks of the client, with what the network does, the processing of a
packet by the server, its answer to a heartbeat, and the answer at the front of the event
queue. -/
inductive PumpEvent
  | connect (outcome : Connecting)
  | connected (socket : Nat) (connected throws : Bool)
  | reconnected (socket : Nat) (connected : Bool) (request : List UInt8) (throws : Bool)
  | sendMsg (msg : Msg) (reliable connectThrows throws : Bool)
  | sent (op : Nat) (written : Option Nat) (throws : Bool)
  | heartBeat (throws : Bool)
  | close
  | process (msgSeq : UInt32)
  | answer
  | recvHeartBeatAns

namespace Client

/-- One event. A timer of heartbeats may run once a connection was there. -/
def step (s : Client) : PumpEvent → Option Client
  | .connect outcome => some (s.connect outcome)
  | .connected socket connected throws => s.callbackConnect socket connected throws
  | .reconnected socket connected request throws =>
      s.callbackReconnect socket connected request throws
  | .sendMsg msg reliable connectThrows throws =>
      some (s.sendMsg msg reliable connectThrows throws)
  | .sent op written throws => s.callbackSendMsg op written throws
  | .heartBeat throws => if s.beating then some (s.sendRequest 3 true throws).1 else none
  | .close => some s.close
  | .process msgSeq =>
      if msgSeq ∈ s.handed then some { s with processed := max s.processed msgSeq } else none
  | .answer => some { s with answers := s.answers ++ [s.processed] }
  | .recvHeartBeatAns =>
      match s.answers with
      | [] => none
      | msgSeq :: answers => some ({ s with answers := answers }.removeSentPacket msgSeq)

section Rules

variable {s s' : Client} {P : Client → Prop}

/-- A property that is kept when a packet is numbered and when a new one is queued. -/
structure KeptByQueueing (P : Client → Prop) : Prop where
  number : ∀ s, P s → P { s with msgSeq := s.msgSeq + 1 }
  send : ∀ s packet throws, packet.readIndex = 0 → P s → P (s.sendPacket packet throws).1

theorem KeptByQueueing.sendRequest
    (hP : KeptByQueueing P)
    (hs : P s)
    (msgId : UInt32)
    (reliable throws : Bool) :
    P (s.sendRequest msgId reliable throws).1 := by
  unfold Client.sendRequest
  exact hP.send _ _ throws (Packet.header_readIndex _ _ _ _) (hP.number s hs)

theorem KeptByQueueing.sendBody
    (hP : KeptByQueueing P)
    (hs : P s)
    (msg : Msg)
    (reliable throws : Bool) :
    P (s.sendBody msg reliable throws) := by
  have hnumbered := hP.number s hs
  unfold Client.sendBody
  dsimp only
  split_ifs
  · exact hs
  split
  · exact hnumbered
  rename_i packet happend
  have hsend := hP.send _ packet throws (Packet.append_readIndex happend) hnumbered
  split <;> rename_i s₁ heq <;> rw [heq] at hsend
  · exact hsend
  · split_ifs
    · exact hP.sendRequest hsend 3 true throws
    · exact hsend

/-- SendMsg keeps such a property if Reconnect does. -/
theorem KeptByQueueing.sendMsg
    (hP : KeptByQueueing P)
    {connectThrows : Bool}
    (hs : P (s.reconnect connectThrows).1)
    (msg : Msg)
    (reliable throws : Bool) :
    P (s.sendMsg msg reliable connectThrows throws) := by
  unfold Client.sendMsg
  split <;> rename_i s₁ heq <;> rw [heq] at hs
  · exact hs
  · exact hP.sendBody hs msg reliable throws

/-- A completion on another socket, a send that failed, and one after which the client goes
on. -/
theorem callbackSendMsg_cases
    {op : Nat} {written : Option Nat} {throws : Bool}
    (h : s.callbackSendMsg op written throws = some s') :
    ∃ operation, s.sends[op]? = some operation ∧
      ((s.socket ≠ some operation.socket ∧ s' = { s with sends := s.sends.eraseIdx op }) ∨
        (s.socket = some operation.socket ∧ written = none ∧
          s' = { s with sends := s.sends.eraseIdx op }) ∨
        ∃ n, s.socket = some operation.socket ∧ written = some n ∧
          s' = advance { s with sends := s.sends.eraseIdx op } (min n operation.bytes.length)
            throws) := by
  unfold callbackSendMsg at h
  split at h
  · cases h
  rename_i operation hop
  refine ⟨operation, hop, ?_⟩
  dsimp only at h
  split_ifs at h with hsocket
  · cases written with
    | none =>
        cases h
        exact .inr (.inl ⟨hsocket, rfl, rfl⟩)
    | some n =>
        cases h
        exact .inr (.inr ⟨n, hsocket, rfl, rfl⟩)
  · cases h
    exact .inl ⟨hsocket, rfl⟩

end Rules

theorem current_eq_some_iff
    {s : Client} {packet : Packet} :
    s.current = some packet ↔
      0 ≤ s.sendQueueIdx ∧ s.sendQueue[s.sendQueueIdx.toNat]? = some packet := by
  unfold current
  split_ifs with h
  · simp [h]
  · simp [Int.not_lt.mp h]

/-- A packet that is queued at the index. -/
theorem current_concat
    {s : Client}
    (hidx : s.sendQueueIdx = s.sendQueue.length)
    (packet : Packet) :
    current { s with sendQueue := s.sendQueue ++ [packet] } = some packet := by
  refine current_eq_some_iff.mpr ⟨?_, ?_⟩
  · change 0 ≤ s.sendQueueIdx
    omega
  · simp only [hidx, Int.toNat_natCast, List.getElem?_concat_length]

section Session

variable {F : Type} {s : Client} {t : Session F} {socket : Socket} {connectThrows throws : Bool}

/-- The state of the connection and the queue are those of a session. -/
structure Same (s : Client) (t : Session F) : Prop where
  state : s.state = t.state
  msgSeq : s.msgSeq = t.msgSeq
  sendQueue : s.sendQueue = t.sendQueue
  sendQueueIdx : s.sendQueueIdx = t.sendQueueIdx

/-- BeginSend throws in both. -/
def SameSend (s : Client) (throws : Bool) (socket : Socket) : Prop :=
  socket.beginSend = none ↔ s.socket.isSome ∧ throws = false

/-- Both return, or an exception leaves both. BeginSend throws as before. -/
structure SameOutcome (throws : Bool) (socket : Socket) (r : Client × Bool)
    (r' : Session F × Option String) : Prop where
  same : Same r.1 r'.1
  send : r.1.SameSend throws socket
  returns : r.2 = true ↔ r'.2 = none

theorem beginCurrent_same
    (h : Same s t)
    (hsend : s.SameSend throws socket)
    {packet : Packet}
    (hcurrent : s.current = some packet) :
    SameOutcome throws socket (s.beginCurrent throws) (t, socket.beginSend) := by
  simp only [beginCurrent, hcurrent, beginSend]
  split
  · rename_i k hk
    exact ⟨⟨h.state, h.msgSeq, h.sendQueue, h.sendQueueIdx⟩, hsend,
      iff_of_true rfl (hsend.mpr ⟨Option.isSome_iff_exists.mpr ⟨k, hk⟩, rfl⟩)⟩
  · rename_i hthrows
    refine ⟨h, hsend, iff_of_false Bool.false_ne_true fun hnone => ?_⟩
    obtain ⟨hsome, hquiet⟩ := hsend.mp hnone
    obtain ⟨k, hk⟩ := Option.isSome_iff_exists.mp hsome
    exact hthrows k hk hquiet

theorem sendPacket_same
    (h : Same s t)
    (hsend : s.SameSend throws socket)
    (packet : Packet) :
    SameOutcome throws socket (s.sendPacket packet throws) (t.sendPacket socket packet) := by
  have hqueued : Same { s with sendQueue := s.sendQueue ++ [packet] }
      { t with sendQueue := t.sendQueue ++ [packet] } :=
    ⟨h.state, h.msgSeq, by rw [h.sendQueue], h.sendQueueIdx⟩
  have hfirst : ((s.sendQueue ++ [packet]).length : Int) - s.sendQueueIdx = 1 ∧
        s.state = .connected ↔
      ((t.sendQueue ++ [packet]).length : Int) - t.sendQueueIdx = 1 ∧ t.state = .connected := by
    rw [h.sendQueue, h.sendQueueIdx, h.state]
  unfold sendPacket Session.sendPacket
  dsimp only
  split_ifs with hone hone' hone'
  · have hidx : s.sendQueueIdx = s.sendQueue.length := by
      rw [List.length_append, List.length_singleton] at hone
      omega
    exact beginCurrent_same hqueued hsend (current_concat hidx packet)
  · exact absurd (hfirst.mp hone) hone'
  · exact absurd (hfirst.mpr hone') hone
  · exact ⟨hqueued, hsend, iff_of_true rfl rfl⟩

theorem sendHeartBeatReq_same
    (h : Same s t)
    (hsend : s.SameSend throws socket) :
    SameOutcome throws socket (s.sendRequest 3 true throws) (t.sendHeartBeatReq socket) := by
  have hnumbered : Same { s with msgSeq := s.msgSeq + 1 } { t with msgSeq := t.msgSeq + 1 } :=
    ⟨h.state, by rw [h.msgSeq], h.sendQueue, h.sendQueueIdx⟩
  unfold sendRequest Session.sendHeartBeatReq
  dsimp only
  rw [← h.msgSeq] at hnumbered ⊢
  exact sendPacket_same hnumbered hsend _

theorem reconnect_same
    (h : Same s t)
    (hconnect : socket.beginConnect = none ↔ s.endpoint = true ∧ connectThrows = false)
    (hsend : s.SameSend throws socket) :
    SameOutcome throws socket (s.reconnect connectThrows) (t.reconnect socket) := by
  unfold reconnect Session.reconnect
  rw [← h.state]
  dsimp only
  split_ifs with hstate hstarts
  · exact ⟨⟨rfl, h.msgSeq, h.sendQueue, h.sendQueueIdx⟩, hsend,
      iff_of_true rfl (hconnect.mpr hstarts)⟩
  · exact ⟨⟨rfl, h.msgSeq, h.sendQueue, h.sendQueueIdx⟩, hsend,
      iff_of_false Bool.false_ne_true fun hnone => hstarts (hconnect.mp hnone)⟩
  · exact ⟨h, hsend, iff_of_true rfl rfl⟩

theorem caught_same
    {r : Session F × Option String}
    (h : Same s r.1) :
    Same s (Session.caught r) := by
  rcases r with ⟨t, _ | e⟩
  · exact h
  · exact ⟨h.state, h.msgSeq, h.sendQueue, h.sendQueueIdx⟩

theorem sendBody_same
    (h : Same s t)
    (hsend : s.SameSend throws socket)
    {msg : Msg}
    (hlength : ushort (headerSize + msg.size) ≤ bufferSize)
    (reliable : Bool) :
    Same (s.sendBody msg reliable throws)
      (t.sendBody socket (ushort (headerSize + msg.size)) msg reliable).1 := by
  have hnumbered : Same { s with msgSeq := s.msgSeq + 1 } { t with msgSeq := t.msgSeq + 1 } :=
    ⟨h.state, by rw [h.msgSeq], h.sendQueue, h.sendQueueIdx⟩
  unfold sendBody Session.sendBody
  dsimp only
  rw [if_neg (Nat.not_lt.mpr hlength), ← h.msgSeq] at *
  cases (Packet.header (ushort (headerSize + msg.size)) (s.msgSeq + 1) msg.msgId
      reliable).append msg.stored with
  | error e =>
      exact hnumbered
  | ok packet =>
      obtain ⟨hsame, hagain, hreturns⟩ := sendPacket_same hnumbered hsend packet
      dsimp only
      generalize sendPacket { s with msgSeq := s.msgSeq + 1 } packet throws = r at *
      generalize Session.sendPacket socket { t with msgSeq := s.msgSeq + 1 } packet = r' at *
      rcases r with ⟨s₁, _ | _⟩ <;> rcases r' with ⟨t₁, _ | e⟩
      · cases hreturns.mpr rfl
      · exact hsame
      · have hbeat : s₁.msgSeq.toNat % 10 = 0 ∧ s₁.state = .connected ↔
            t₁.msgSeq.toNat % 10 = 0 ∧ t₁.state = .connected := by
          rw [hsame.msgSeq, hsame.state]
        dsimp only
        split_ifs with hten hten' hten'
        · exact (sendHeartBeatReq_same hsame hagain).same
        · exact absurd (hbeat.mp hten) hten'
        · exact absurd (hbeat.mpr hten') hten
        · exact hsame
      · cases hreturns.mp rfl

/-- SendMsg of a message is that of a session, when its socket throws alike. -/
theorem sendMsg_same
    (h : Same s t)
    (hconnect : socket.beginConnect = none ↔ s.endpoint = true ∧ connectThrows = false)
    (hsend : s.SameSend throws socket)
    (msg : Msg) (reliable : Bool) :
    Same (s.sendMsg msg reliable connectThrows throws) (t.sendMsg socket msg reliable) := by
  obtain ⟨hsame, hagain, hreturns⟩ := reconnect_same h hconnect hsend
  unfold sendMsg Session.sendMsg
  refine caught_same ?_
  generalize s.reconnect connectThrows = r at *
  generalize t.reconnect socket = r' at *
  rcases r with ⟨s₁, _ | _⟩ <;> rcases r' with ⟨t₁, _ | e⟩
  · cases hreturns.mpr rfl
  · exact hsame
  · dsimp only
    split_ifs with hlong
    · have hoverflow : s₁.sendBody msg reliable throws = s₁ := if_pos hlong
      rw [hoverflow]
      exact hsame
    · exact sendBody_same hsame hagain (Nat.not_lt.mp hlong) reliable
  · cases hreturns.mp rfl

end Session

end Client

end Unity
end Gamnet
