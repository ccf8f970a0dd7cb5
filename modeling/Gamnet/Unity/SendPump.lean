import Gamnet.Unity.SendIndex
import Gamnet.Unity.Sockets

/-!
# The send pump of the client

SendMsg begins to send a packet only if it is the first one that waits, and everything behind
that is begun by completions. So whoever queues packets without beginning to send them, or
loses a completion, stops the pump: packets that were queued before the connection was there
wait for ever behind the Connect_Req that finds them, and an exception of BeginSend or a failed
completion ends it.

In every state of a run with a connection and a packet at the index, exactly one send is
outstanding on the socket, that of the rest of this packet, exactly if the steps of the run
are of the kinds that keep the pump going (`send_pump_iff`).
-/

namespace Gamnet
namespace Unity
namespace Client

/-- With a connection and a packet at the index, one send is outstanding on the socket, and it
sends the unread bytes of the packet. -/
def Pumping (s : Client) : Prop :=
  s.state = .connected → s.sendQueueIdx < s.sendQueue.length →
    ∃ packet op, s.current = some packet ∧ s.outstanding = [op] ∧ op.bytes = packet.unread

/-- With a connection the index is at the end and nothing is outstanding, or the packet at the
index is being sent. -/
def Pump (s : Client) : Prop :=
  s.state = .connected →
    (s.sendQueueIdx = s.sendQueue.length ∧ s.outstanding = []) ∨
      ∃ packet op, s.current = some packet ∧ s.outstanding = [op] ∧ op.bytes = packet.unread

/-- The index is not behind the end, and nothing of a packet behind it was sent. -/
structure Fresh (s : Client) : Prop where
  idx_le : s.sendQueueIdx ≤ s.sendQueue.length
  unsent : ∀ (i : Nat) packet, s.sendQueueIdx < i → s.sendQueue[i]? = some packet →
    packet.readIndex = 0

section Fresh

variable {s s' : Client}

theorem Fresh.of_eq
    (hs : s.Fresh)
    (hqueue : s'.sendQueue = s.sendQueue)
    (hidx : s'.sendQueueIdx = s.sendQueueIdx) :
    s'.Fresh where
  idx_le := by
    rw [hqueue, hidx]
    exact hs.idx_le
  unsent := by
    rw [hqueue, hidx]
    exact hs.unsent

theorem Fresh.push
    (hs : s.Fresh)
    {packet : Packet}
    (hpacket : packet.readIndex = 0)
    (hqueue : s'.sendQueue = s.sendQueue ++ [packet])
    (hidx : s'.sendQueueIdx = s.sendQueueIdx) :
    s'.Fresh := by
  have hle := hs.idx_le
  constructor
  · rw [hqueue, hidx, List.length_append]
    omega
  · intro i p hi hget
    rw [hqueue] at hget
    rw [hidx] at hi
    by_cases hold : i < s.sendQueue.length
    · rw [List.getElem?_append_left hold] at hget
      exact hs.unsent i p hi hget
    · rw [List.getElem?_append_right (by omega), List.getElem?_singleton] at hget
      split_ifs at hget
      cases hget
      exact hpacket

theorem Fresh.sendPacket
    (hs : s.Fresh)
    {packet : Packet}
    (hpacket : packet.readIndex = 0)
    (throws : Bool) :
    (s.sendPacket packet throws).1.Fresh := by
  obtain ⟨hqueue, hidx⟩ := sendPacket_queue s packet throws
  exact hs.push hpacket hqueue hidx

theorem keptByQueueing_fresh :
    KeptByQueueing Fresh where
  number _ hs := hs.of_eq rfl rfl
  send _ _ throws hpacket hs := hs.sendPacket hpacket throws

theorem Fresh.reconnect
    (hs : s.Fresh)
    (throws : Bool) :
    (s.reconnect throws).1.Fresh := by
  unfold Client.reconnect
  dsimp only
  split_ifs <;> exact hs.of_eq rfl rfl

theorem fresh_of_nil
    (hqueue : s.sendQueue = [])
    (hidx : s.sendQueueIdx = 0) :
    s.Fresh where
  idx_le := by
    rw [hqueue, hidx]
    exact Int.le_refl 0
  unsent i p _ hget := by
    rw [hqueue, List.getElem?_nil] at hget
    cases hget

theorem fresh_connect
    (s : Client)
    (outcome : Connecting) :
    (s.connect outcome).Fresh := by
  cases outcome <;> exact fresh_of_nil rfl rfl

theorem Fresh.callbackConnect
    (hs : s.Fresh)
    {socket : Nat} {connected throws : Bool}
    (h : s.callbackConnect socket connected throws = some s') :
    s'.Fresh := by
  unfold Client.callbackConnect at h
  dsimp only at h
  split_ifs at h
  · have hconnected : Fresh { s with
        connects := s.connects.erase socket
        socket := some socket
        state := .connected } := hs.of_eq rfl rfl
    have hrequest := keptByQueueing_fresh.sendRequest hconnected 1 false throws
    split at h <;> rename_i s₁ heq <;> rw [heq] at hrequest <;> cases h
    · exact hrequest.of_eq rfl rfl
    · exact hrequest.of_eq rfl rfl
  · cases h
    exact hs.of_eq rfl rfl

/-- Nothing is sent any more of the packets that are sent again. -/
theorem fresh_resend
    (s : Client)
    (request : List UInt8)
    (throws : Bool) :
    (s.resend request throws).Fresh := by
  have hcleared : Fresh { s with
      state := .connected
      sendQueue := []
      sendQueueIdx := 0
      msgSeq := s.msgSeq + 1 } := fresh_of_nil rfl rfl
  unfold Client.resend
  dsimp only
  split
  · exact hcleared
  rename_i packet happend
  have hsend := hcleared.sendPacket (Packet.append_readIndex happend) throws
  split <;> rename_i s₁ heq <;> rw [heq] at hsend
  · exact hsend.of_eq rfl rfl
  · have hle : s₁.sendQueueIdx ≤ s₁.sendQueue.length := hsend.idx_le
    constructor
    · simp only [List.length_append]
      omega
    · intro i p hi hget
      by_cases hold : i < s₁.sendQueue.length
      · rw [List.getElem?_append_left hold] at hget
        exact hsend.unsent i p hi hget
      · rw [List.getElem?_append_right (by omega), List.getElem?_map] at hget
        obtain ⟨_, _, rfl⟩ := Option.map_eq_some_iff.mp hget
        rfl

theorem Fresh.callbackReconnect
    (hs : s.Fresh)
    {socket : Nat} {connected : Bool} {request : List UInt8} {throws : Bool}
    (h : s.callbackReconnect socket connected request throws = some s') :
    s'.Fresh := by
  unfold Client.callbackReconnect at h
  dsimp only at h
  split_ifs at h
  · cases h
    exact fresh_resend _ request throws
  · cases h
    exact hs.of_eq rfl rfl
  · cases h
    exact hs.of_eq rfl rfl

/-- The packets behind one that was sent are those that were behind it. -/
theorem Fresh.pass
    (hs : s.Fresh)
    {packet : Packet}
    (hcurrent : s.current = some packet)
    (packet' : Packet) :
    (s.pass packet').Fresh := by
  obtain ⟨hnonneg, hlt⟩ := idx_lt_of_current hcurrent
  refine ⟨(moves_pass hcurrent packet').le_length hs.idx_le, ?_⟩
  intro i p hi hget
  unfold Client.pass at hi hget
  split_ifs at hi hget
  · change s.sendQueueIdx + 1 < (i : Int) at hi
    rw [List.getElem?_set_ne (by omega)] at hget
    exact hs.unsent i p (by omega) hget
  · change s.sendQueueIdx < (i : Int) at hi
    rw [List.getElem?_eraseIdx_of_ge (by omega)] at hget
    exact hs.unsent (i + 1) p (by omega) hget

theorem Fresh.advance
    (hs : s.Fresh)
    (written : Nat)
    (throws : Bool) :
    (s.advance written throws).Fresh := by
  unfold Client.advance
  split
  · exact hs
  rename_i packet hcurrent
  obtain ⟨hnonneg, hlt⟩ := idx_lt_of_current hcurrent
  have hpass := hs.pass hcurrent (packet.skip written)
  have hset : Fresh
      { s with sendQueue := s.sendQueue.set s.sendQueueIdx.toNat (packet.skip written) } := by
    constructor
    · rw [List.length_set]
      exact hs.idx_le
    · intro i p hi hget
      change s.sendQueueIdx < (i : Int) at hi
      rw [List.getElem?_set_ne (by omega)] at hget
      exact hs.unsent i p hi hget
  dsimp only
  split_ifs
  · obtain ⟨hqueue, hidx⟩ := beginSend_queue
      { s with sendQueue := s.sendQueue.set s.sendQueueIdx.toNat (packet.skip written) }
      (packet.skip written).copied (packet.skip written).msgSeq throws
    exact hset.of_eq hqueue hidx
  · obtain ⟨hqueue, hidx⟩ := beginCurrent_queue (s.pass (packet.skip written)) throws
    exact hpass.of_eq hqueue hidx
  · exact hpass

theorem Fresh.callbackSendMsg
    (hs : s.Fresh)
    {op : Nat} {written : Option Nat} {throws : Bool}
    (h : s.callbackSendMsg op written throws = some s') :
    s'.Fresh := by
  have hdone : Fresh { s with sends := s.sends.eraseIdx op } := hs.of_eq rfl rfl
  obtain ⟨_, _, ⟨_, rfl⟩ | ⟨_, _, rfl⟩ | ⟨n, _, _, rfl⟩⟩ := callbackSendMsg_cases h
  · exact hdone
  · exact hdone
  · exact hdone.advance _ throws

theorem Fresh.removeSentPacket
    (hs : s.Fresh)
    (msgSeq : UInt32) :
    (s.removeSentPacket msgSeq).Fresh := by
  have hle := hs.idx_le
  have hcount := acknowledged_le_length s msgSeq
  constructor
  · change s.sendQueueIdx - s.acknowledged msgSeq ≤ (List.drop _ s.sendQueue).length
    rw [List.length_drop]
    omega
  · intro i p hi hget
    change s.sendQueueIdx - s.acknowledged msgSeq < (i : Int) at hi
    change (List.drop _ s.sendQueue)[i]? = some p at hget
    rw [List.getElem?_drop] at hget
    exact hs.unsent _ p (by omega) hget

/-- Every event leaves the packets behind the index unsent. -/
theorem Fresh.step
    (hs : s.Fresh)
    {e : PumpEvent}
    (h : s.step e = some s') :
    s'.Fresh := by
  cases e with
  | connect outcome =>
      cases h
      exact fresh_connect s outcome
  | connected socket connected throws =>
      exact hs.callbackConnect h
  | reconnected socket connected request throws =>
      exact hs.callbackReconnect h
  | sendMsg msg reliable connectThrows throws =>
      cases h
      exact keptByQueueing_fresh.sendMsg (hs.reconnect connectThrows) msg reliable throws
  | sent op written throws =>
      exact hs.callbackSendMsg h
  | heartBeat throws =>
      simp only [Client.step] at h
      split_ifs at h
      cases h
      exact keptByQueueing_fresh.sendRequest hs 3 true throws
  | close =>
      cases h
      exact hs.of_eq rfl rfl
  | process msgSeq =>
      simp only [Client.step] at h
      split_ifs at h
      cases h
      exact hs.of_eq rfl rfl
  | answer =>
      cases h
      exact hs.of_eq rfl rfl
  | recvHeartBeatAns =>
      simp only [Client.step] at h
      split at h <;> cases h
      rename_i msgSeq answers _
      have hpopped : Fresh { s with answers := answers } := hs.of_eq rfl rfl
      exact hpopped.removeSentPacket msgSeq

end Fresh

/-- A message whose length is accepted, and whose text is not too much for the buffer of a
packet. -/
def Fits (msg : Msg) : Prop :=
  ushort (headerSize + msg.size) ≤ bufferSize ∧ headerSize + msg.stored.length ≤ bufferSize

/-- The steps that keep the pump going. A connection finds nothing queued. With a connection
BeginSend does not throw where it is called, and no send on the socket fails, and no answer
acknowledges the packet that is being sent. -/
def KeepsPumping (s : Client) : PumpEvent → Prop
  | .connected socket connected _ =>
      socket ∈ s.connects → connected = true → s.timer = true →
        s.sendQueueIdx = s.sendQueue.length
  | .sendMsg msg _ _ throws =>
      s.state = .connected → Fits msg → throws = true → s.sendQueueIdx ≠ s.sendQueue.length
  | .sent op written throws =>
      ∀ operation, s.sends[op]? = some operation → s.state = .connected →
        s.socket = some operation.socket →
          ∃ n, written = some n ∧
            (throws = true →
              operation.bytes.length ≤ n ∧ s.sendQueueIdx + 1 = s.sendQueue.length)
  | .heartBeat throws =>
      s.beating = true → s.state = .connected → throws = true →
        s.sendQueueIdx ≠ s.sendQueue.length
  | .recvHeartBeatAns =>
      ∀ msgSeq answers, s.answers = msgSeq :: answers → s.state = .connected → s.Stops msgSeq
  | _ => True

section Pump

variable {s s' : Client} {C : Prop}

/-- The condition decides whether the pump goes on in the state. -/
structure Decides (s' : Client) (C : Prop) : Prop where
  of_pumping : s'.Pumping → C
  pump : C → s'.Pump

theorem Pump.pumping
    (hs : s.Pump) :
    s.Pumping := by
  intro hstate hlt
  rcases hs hstate with ⟨hidx, -⟩ | hsending
  · omega
  · exact hsending

theorem Pump.of_state
    (hstate : s.state ≠ .connected) :
    s.Pump :=
  fun h => absurd h hstate

theorem Pump.decides
    (hs : s.Pump)
    (hC : C) :
    s.Decides C :=
  ⟨fun _ => hC, fun _ => hs⟩

/-- A packet waits, and nothing is being sent. -/
theorem decides_of_stalled
    (hstate : s.state = .connected)
    (hlt : s.sendQueueIdx < s.sendQueue.length)
    (hnone : s.outstanding = [])
    (hC : ¬ C) :
    s.Decides C where
  of_pumping h := by
    obtain ⟨_, _, _, hone, _⟩ := h hstate hlt
    rw [hnone] at hone
    cases hone
  pump h := absurd h hC

/-- With nothing queued nothing is being sent. -/
theorem Pump.outstanding_eq_nil
    (hs : s.Pump)
    (hstate : s.state = .connected)
    (hidx : s.sendQueueIdx = s.sendQueue.length) :
    s.outstanding = [] := by
  rcases hs hstate with ⟨-, hnone⟩ | ⟨packet, _, hcurrent, _⟩
  · exact hnone
  · have hlt := (idx_lt_of_current hcurrent).2
    omega

/-- With something queued the packet at the index is being sent. -/
theorem Pump.sending
    (hs : s.Pump)
    (hstate : s.state = .connected)
    (hlt : s.sendQueueIdx < s.sendQueue.length) :
    ∃ packet op, s.current = some packet ∧ s.outstanding = [op] ∧ op.bytes = packet.unread :=
  hs.pumping hstate hlt

theorem Pump.valid
    (hs : s.Pump)
    (hstate : s.state = .connected) :
    s.Valid := by
  rcases hs hstate with ⟨hidx, -⟩ | ⟨packet, _, hcurrent, _⟩
  · constructor <;> omega
  · obtain ⟨hnonneg, hlt⟩ := idx_lt_of_current hcurrent
    exact ⟨hnonneg, Int.le_of_lt hlt⟩

/-- Packets behind one that is being sent do not matter. -/
theorem Pump.append
    (hs : s.Pump)
    (hlt : s.sendQueueIdx < s.sendQueue.length)
    (packets : List Packet) :
    Pump { s with sendQueue := s.sendQueue ++ packets } := by
  intro hstate
  obtain ⟨packet, op, hcurrent, hone, hbytes⟩ := hs.sending hstate hlt
  refine .inr ⟨packet, op, ?_, hone, hbytes⟩
  obtain ⟨hnonneg, hget⟩ := current_eq_some_iff.mp hcurrent
  have hin : s.sendQueueIdx.toNat < s.sendQueue.length := by
    omega
  exact current_eq_some_iff.mpr ⟨hnonneg, (List.getElem?_append_left hin).trans hget⟩

theorem sendPacket_of_waiting
    (h : s.state ≠ .connected ∨ s.sendQueueIdx < s.sendQueue.length)
    (packet : Packet) (throws : Bool) :
    s.sendPacket packet throws = ({ s with sendQueue := s.sendQueue ++ [packet] }, true) := by
  unfold sendPacket
  dsimp only
  refine if_neg fun ⟨hone, hstate⟩ => ?_
  rcases h with h | h
  · exact h hstate
  · rw [List.length_append, List.length_singleton] at hone
    omega

/-- A packet that is the first one to wait is begun. -/
theorem sendPacket_of_idle
    (hstate : s.state = .connected)
    (hidx : s.sendQueueIdx = s.sendQueue.length)
    (packet : Packet) (throws : Bool) :
    s.sendPacket packet throws =
      beginSend { s with sendQueue := s.sendQueue ++ [packet] } packet.bytes packet.msgSeq
        throws := by
  unfold sendPacket
  dsimp only
  rw [if_pos ⟨by rw [hidx, List.length_append, List.length_singleton]; omega, hstate⟩,
    beginCurrent, current_concat hidx]

/-- Where nothing is being sent BeginSend of the packet at the index starts the pump, if it
does not throw. -/
theorem decides_beginSend
    (hstate : s.state = .connected)
    (hsocket : s.socket.isSome)
    (hnone : s.outstanding = [])
    {packet : Packet}
    (hcurrent : s.current = some packet)
    {bytes : List UInt8}
    (hbytes : bytes = packet.unread)
    (msgSeq : UInt32) (throws : Bool) :
    (s.beginSend bytes msgSeq throws).1.Decides (throws = false) := by
  obtain ⟨k, hk⟩ := Option.isSome_iff_exists.mp hsocket
  have hlt := (idx_lt_of_current hcurrent).2
  cases throws with
  | true =>
      have hsame : s.beginSend bytes msgSeq true = (s, false) := by
        simp only [beginSend, hk]
      rw [hsame]
      exact decides_of_stalled hstate hlt hnone (by decide)
  | false =>
      simp only [beginSend, hk]
      refine Pump.decides (fun _ => .inr ⟨packet, ⟨k, bytes⟩, hcurrent, ?_, hbytes⟩) trivial
      have hbefore : s.sends.filter (fun op => some k = some op.socket) = [] := by
        rw [← hk]
        exact hnone
      simp only [outstanding, List.filter_append, hbefore]
      simp

theorem Decides.congr
    {C' : Prop}
    (h : s.Decides C)
    (hiff : C ↔ C') :
    s.Decides C' :=
  ⟨fun hpumping => hiff.mp (h.of_pumping hpumping), fun hC => h.pump (hiff.mpr hC)⟩

/-- With a connection SendMsg of a packet keeps the pump going, if BeginSend does not throw
when it is called. Otherwise the exception leaves it. -/
theorem Pump.sendPacket
    (hs : s.Pump)
    (hstate : s.state = .connected)
    (hsocket : s.socket.isSome)
    {packet : Packet}
    (hpacket : packet.readIndex = 0)
    (throws : Bool) :
    (s.sendPacket packet throws).1.Decides
        (throws = true → s.sendQueueIdx ≠ s.sendQueue.length) ∧
      ((s.sendPacket packet throws).2 = true ↔
        (throws = true → s.sendQueueIdx ≠ s.sendQueue.length)) := by
  have hle := (hs.valid hstate).le_length
  rcases lt_or_eq_of_le hle with hlt | hidx
  · rw [sendPacket_of_waiting (.inr hlt)]
    have hwaits : throws = true → s.sendQueueIdx ≠ s.sendQueue.length := fun _ => ne_of_lt hlt
    exact ⟨(hs.append hlt [packet]).decides hwaits, iff_of_true rfl hwaits⟩
  · have hnone := hs.outstanding_eq_nil hstate hidx
    have hdecides := decides_beginSend (s := { s with sendQueue := s.sendQueue ++ [packet] })
      hstate hsocket hnone (current_concat hidx packet) (Packet.bytes_of_unsent hpacket)
      packet.msgSeq throws
    obtain ⟨k, hk⟩ := Option.isSome_iff_exists.mp hsocket
    rw [sendPacket_of_idle hstate hidx]
    refine ⟨hdecides.congr ?_, ?_⟩
    · simp [hidx]
    · cases throws <;> simp [beginSend, hk, hidx]

theorem sendRequest_of_waiting
    (h : s.state ≠ .connected ∨ s.sendQueueIdx < s.sendQueue.length)
    (msgId : UInt32) (reliable throws : Bool) :
    s.sendRequest msgId reliable throws =
      ({ s with
        msgSeq := s.msgSeq + 1
        sendQueue :=
          s.sendQueue ++ [.header headerSize (s.msgSeq + 1) msgId reliable] }, true) := by
  unfold Client.sendRequest
  exact @sendPacket_of_waiting { s with msgSeq := s.msgSeq + 1 } h _ throws

theorem Pump.sendRequest
    (hs : s.Pump)
    (hstate : s.state = .connected)
    (hsocket : s.socket.isSome)
    (msgId : UInt32) (reliable throws : Bool) :
    (s.sendRequest msgId reliable throws).1.Decides
        (throws = true → s.sendQueueIdx ≠ s.sendQueue.length) ∧
      ((s.sendRequest msgId reliable throws).2 = true ↔
        (throws = true → s.sendQueueIdx ≠ s.sendQueue.length)) := by
  have hnumbered : Pump { s with msgSeq := s.msgSeq + 1 } := hs
  unfold Client.sendRequest
  exact hnumbered.sendPacket hstate hsocket (Packet.header_readIndex _ _ _ _) throws

/-- A packet takes the bytes that fit behind its header. -/
theorem append_header_iff
    (length : Nat) (msgSeq msgId : UInt32) (reliable : Bool) (bytes : List UInt8) :
    (∃ packet, (Packet.header length msgSeq msgId reliable).append bytes = .ok packet) ↔
      headerSize + bytes.length ≤ bufferSize := by
  generalize hpacket : Packet.header length msgSeq msgId reliable = packet
  have hwrite : packet.writeIndex = headerSize := by
    rw [← hpacket]
    rfl
  unfold Packet.append
  by_cases hfits : headerSize + bytes.length ≤ bufferSize
  · obtain ⟨b, happend, -⟩ :=
      @Buffer.append_spec packet.toBuffer bytes (by rw [hwrite]; exact hfits)
    simp [happend, hfits]
  · have happend := @Buffer.append_of_not_fits packet.toBuffer bytes (by rw [hwrite]; omega)
    simp [happend, hfits]

/-- With a connection SendMsg of a message keeps the pump going, if BeginSend does not throw
when it is called. -/
theorem Pump.sendBody
    (hs : s.Pump)
    (hstate : s.state = .connected)
    (hsocket : s.socket.isSome)
    (msg : Msg) (reliable throws : Bool) :
    (s.sendBody msg reliable throws).Decides
      (Fits msg → throws = true → s.sendQueueIdx ≠ s.sendQueue.length) := by
  have hnumbered : Pump { s with msgSeq := s.msgSeq + 1 } := hs
  unfold Client.sendBody
  dsimp only
  split_ifs with hlength
  · refine hs.decides fun hfits => ?_
    have hle := hfits.1
    omega
  have happend := append_header_iff (ushort (headerSize + msg.size)) (s.msgSeq + 1) msg.msgId
    reliable msg.stored
  split
  · rename_i e herror
    refine hnumbered.decides fun hfits => ?_
    obtain ⟨packet, hok⟩ := happend.mpr hfits.2
    rw [herror] at hok
    cases hok
  rename_i packet hok
  have hfits : Fits msg := ⟨Nat.not_lt.mp hlength, happend.mp ⟨packet, hok⟩⟩
  have hiff : (throws = true → s.sendQueueIdx ≠ s.sendQueue.length) ↔
      (Fits msg → throws = true → s.sendQueueIdx ≠ s.sendQueue.length) :=
    ⟨fun h _ => h, fun h => h hfits⟩
  obtain ⟨hdecides, hflag⟩ := hnumbered.sendPacket hstate hsocket
    (Packet.append_readIndex hok) throws
  have hbegins := begins_sendPacket { s with msgSeq := s.msgSeq + 1 } packet throws
  obtain ⟨hqueue, hidx⟩ := sendPacket_queue { s with msgSeq := s.msgSeq + 1 } packet throws
  have hle := (hs.valid hstate).le_length
  split <;> rename_i s₁ heq <;> rw [heq] at hdecides hflag hbegins hqueue hidx
  · exact hdecides.congr hiff
  · have hwaits := hflag.mp rfl
    have hpump : s₁.Pump := hdecides.pump hwaits
    refine Pump.decides ?_ (hiff.mp hwaits)
    split_ifs with hheartbeat
    · refine (hpump.sendRequest hheartbeat.2 ?_ 3 true throws).1.pump fun _ => ?_
      · exact hbegins.socket ▸ hsocket
      · have hqueue' : s₁.sendQueue = s.sendQueue ++ [packet] := hqueue
        have hidx' : s₁.sendQueueIdx = s.sendQueueIdx := hidx
        rw [hqueue', hidx', List.length_append, List.length_singleton]
        omega
    · exact hpump

/-- SendMsg in any state of the connection. -/
theorem Pump.sendMsg
    (hs : s.Pump)
    (hsockets : s.Sockets)
    (msg : Msg) (reliable connectThrows throws : Bool) :
    (s.sendMsg msg reliable connectThrows throws).Decides
      (s.KeepsPumping (.sendMsg msg reliable connectThrows throws)) := by
  by_cases hstate : s.state = .connected
  · have hsame : s.reconnect connectThrows = (s, true) := by
      unfold Client.reconnect
      rw [if_neg (by rw [hstate]; decide)]
    unfold Client.sendMsg
    rw [hsame]
    refine (hs.sendBody hstate (hsockets.connected hstate).2 msg reliable throws).congr ?_
    exact ⟨fun h _ => h, fun h => h hstate⟩
  · refine Pump.decides (Pump.of_state ?_) fun h => absurd h hstate
    have hreconnect : (s.reconnect connectThrows).1.state ≠ .connected := by
      unfold Client.reconnect
      dsimp only
      split_ifs
      · nofun
      · nofun
      · exact hstate
    unfold Client.sendMsg
    split <;> rename_i s₁ heq <;> rw [heq] at hreconnect
    · exact hreconnect
    · rw [(begins_sendBody s₁ msg reliable throws).state]
      exact hreconnect

/-- A connection keeps the pump going if nothing was queued before. -/
theorem callbackConnect_decides
    (hsockets : s.Sockets)
    (hfresh : s.Fresh)
    {socket : Nat} {connected throws : Bool}
    (h : s.callbackConnect socket connected throws = some s') :
    s'.Decides (s.KeepsPumping (.connected socket connected throws)) := by
  unfold Client.callbackConnect at h
  dsimp only at h
  split_ifs at h with hmem hok
  · have hnone : outstanding { s with
        connects := s.connects.erase socket
        socket := some socket
        state := .connected } = [] := (hsockets.accept (perm_erase_connects hmem)).2
    rcases lt_or_eq_of_le hfresh.idx_le with hlt | hidx
    · -- the request waits behind the packets that were queued, and nobody begins to send them
      rw [@sendRequest_of_waiting { s with
        connects := s.connects.erase socket
        socket := some socket
        state := .connected } (.inr hlt)] at h
      cases h
      refine decides_of_stalled rfl ?_ hnone fun hkeeps => ?_
      · simp only [List.length_append, List.length_singleton]
        omega
      · have hidx := hkeeps hmem hok.1 hok.2
        omega
    · have hpump : Pump { s with
          connects := s.connects.erase socket
          socket := some socket
          state := .connected } := fun _ => .inl ⟨hidx, hnone⟩
      obtain ⟨hdecides, hflag⟩ := hpump.sendRequest rfl rfl 1 false throws
      have hkeeps : s.KeepsPumping (.connected socket connected throws) := fun _ _ _ => hidx
      split at h <;> rename_i s₁ heq <;> rw [heq] at hdecides hflag <;> cases h
      · exact Pump.decides (hdecides.pump (hflag.mp rfl)) hkeeps
      · exact Pump.decides (Pump.of_state nofun) hkeeps
  · cases h
    refine Pump.decides (Pump.of_state nofun) fun _ hconnected htimer => ?_
    exact absurd ⟨hconnected, htimer⟩ hok

/-- A reconnect sends everything again behind its request, and begins with that. -/
theorem pump_resend
    (hnone : s.outstanding = [])
    (hsocket : s.socket.isSome)
    (request : List UInt8) (throws : Bool) :
    (s.resend request throws).Pump := by
  have hcleared : Pump { s with
      state := .connected
      sendQueue := []
      sendQueueIdx := 0
      msgSeq := s.msgSeq + 1 } := fun _ => .inl ⟨rfl, hnone⟩
  unfold Client.resend
  dsimp only
  split
  · exact hcleared
  rename_i packet hok
  obtain ⟨hdecides, hflag⟩ := hcleared.sendPacket rfl hsocket (Packet.append_readIndex hok) throws
  obtain ⟨hqueue, hidx⟩ := sendPacket_queue { s with
    state := .connected
    sendQueue := []
    sendQueueIdx := 0
    msgSeq := s.msgSeq + 1 } packet throws
  split <;> rename_i s₁ heq <;> rw [heq] at hdecides hflag hqueue hidx
  · exact Pump.of_state nofun
  · have hpump : s₁.Pump := hdecides.pump (hflag.mp rfl)
    have hqueue' : s₁.sendQueue = [packet] := hqueue
    have hidx' : s₁.sendQueueIdx = 0 := hidx
    refine hpump.append ?_ (s.sendQueue.map Packet.rewind)
    rw [hqueue', hidx']
    exact Int.one_pos

theorem pump_callbackReconnect
    (hsockets : s.Sockets)
    {socket : Nat} {connected : Bool} {request : List UInt8} {throws : Bool}
    (h : s.callbackReconnect socket connected request throws = some s') :
    s'.Pump := by
  unfold Client.callbackReconnect at h
  dsimp only at h
  split_ifs at h with hmem hok htimer
  · cases h
    exact pump_resend (hsockets.accept (perm_erase_reconnects hmem)).2 rfl request throws
  · cases h
    -- a connection has a timer
    exact Pump.of_state fun hstate => htimer (hsockets.connected hstate).1
  · cases h
    exact Pump.of_state nofun

/-- A list without one of its elements, and what a filter leaves of both. -/
theorem filter_eraseIdx
    {α : Type} {l : List α} {i : Nat} {a : α}
    (h : l[i]? = some a)
    (p : α → Bool) :
    l.filter p = (l.take i).filter p ++ [a].filter p ++ (l.drop (i + 1)).filter p ∧
      (l.eraseIdx i).filter p = (l.take i).filter p ++ (l.drop (i + 1)).filter p := by
  obtain ⟨hi, rfl⟩ := List.getElem?_eq_some_iff.mp h
  constructor
  · conv_lhs => rw [← List.take_append_drop i l, List.drop_eq_getElem_cons hi]
    rw [← List.filter_append, ← List.filter_append, List.append_assoc]
    rfl
  · rw [List.eraseIdx_eq_take_drop_succ, List.filter_append]

/-- The completion of a send on another socket. -/
theorem outstanding_eraseIdx_of_other
    {i : Nat} {op : Operation}
    (hop : s.sends[i]? = some op)
    (hother : s.socket ≠ some op.socket) :
    outstanding { s with sends := s.sends.eraseIdx i } = s.outstanding := by
  obtain ⟨hbefore, hafter⟩ := filter_eraseIdx hop fun op => decide (s.socket = some op.socket)
  have hno : [op].filter (fun op => decide (s.socket = some op.socket)) = [] := by
    simp [hother]
  rw [hno, List.append_nil] at hbefore
  exact hafter.trans hbefore.symm

/-- The completion of the one send that is outstanding on the socket. -/
theorem outstanding_eraseIdx_of_current
    {i : Nat} {op op' : Operation}
    (hop : s.sends[i]? = some op)
    (hcurrent : s.socket = some op.socket)
    (hone : s.outstanding = [op']) :
    op = op' ∧ outstanding { s with sends := s.sends.eraseIdx i } = [] := by
  obtain ⟨hbefore, hafter⟩ := filter_eraseIdx hop fun op => decide (s.socket = some op.socket)
  have hyes : [op].filter (fun op => decide (s.socket = some op.socket)) = [op] := by
    simp [hcurrent]
  have hsum : s.outstanding = _ := hbefore
  rw [hone, hyes, List.append_assoc] at hsum
  have hlength := congrArg List.length hsum
  simp only [List.length_append, List.length_singleton] at hlength
  have hleft := List.eq_nil_of_length_eq_zero (by omega :
    ((s.sends.take i).filter fun op => decide (s.socket = some op.socket)).length = 0)
  have hright := List.eq_nil_of_length_eq_zero (by omega :
    ((s.sends.drop (i + 1)).filter fun op => decide (s.socket = some op.socket)).length = 0)
  rw [hleft, hright] at hsum hafter
  exact ⟨(List.singleton_inj.mp hsum).symm, hafter⟩

/-- A packet that was sent, with the next one behind it. -/
theorem pass_current
    (hfresh : s.Fresh)
    {packet packet' next : Packet}
    (hcurrent : s.current = some packet)
    (hnext : (s.pass packet').current = some next) :
    next.readIndex = 0 := by
  obtain ⟨hnonneg, -⟩ := idx_lt_of_current hcurrent
  obtain ⟨-, hget⟩ := current_eq_some_iff.mp hnext
  unfold Client.pass at hget
  split_ifs at hget
  · simp only at hget
    rw [List.getElem?_set_ne (by omega)] at hget
    exact hfresh.unsent _ next (by omega) hget
  · simp only at hget
    rw [List.getElem?_eraseIdx_of_ge (Nat.le_refl _)] at hget
    exact hfresh.unsent _ next (by omega) hget

theorem pass_outstanding
    (s : Client)
    (packet : Packet) :
    (s.pass packet).outstanding = s.outstanding := by
  unfold Client.pass
  split_ifs <;> rfl

/-- How many packets wait behind one that was sent. -/
theorem pass_idx_lt_iff
    {packet : Packet}
    (hcurrent : s.current = some packet)
    (packet' : Packet) :
    (s.pass packet').sendQueueIdx < (s.pass packet').sendQueue.length ↔
      s.sendQueueIdx + 1 < s.sendQueue.length := by
  obtain ⟨hnonneg, hlt⟩ := idx_lt_of_current hcurrent
  unfold Client.pass
  split_ifs
  · simp only [List.length_set]
  · have herase : (s.sendQueue.eraseIdx s.sendQueueIdx.toNat).length = s.sendQueue.length - 1 :=
      List.length_eraseIdx_of_lt (by omega)
    simp only [herase]
    omega

/-- A call that must not throw. -/
theorem eq_false_iff_of_not
    {throws : Bool}
    (hC : ¬ C) :
    throws = false ↔ (throws = true → C) := by
  cases throws with
  | false =>
      exact iff_of_true rfl nofun
  | true =>
      exact iff_of_false nofun fun h => hC (h rfl)

/-- The completion of the send of the packet at the index begins the next one. The pump stops
if BeginSend is called and throws. -/
theorem advance_decides
    (hfresh : s.Fresh)
    (hstate : s.state = .connected)
    (hsocket : s.socket.isSome)
    (hnone : s.outstanding = [])
    {packet : Packet}
    (hcurrent : s.current = some packet)
    (written : Nat) (throws : Bool) :
    (s.advance written throws).Decides
      (throws = true → packet.size ≤ written ∧ s.sendQueueIdx + 1 = s.sendQueue.length) := by
  obtain ⟨hnonneg, hlt⟩ := idx_lt_of_current hcurrent
  unfold Client.advance
  rw [hcurrent]
  dsimp only
  rw [Packet.skip_size]
  split_ifs with hrest hnext
  · have hset : current { s with
        sendQueue := s.sendQueue.set s.sendQueueIdx.toNat (packet.skip written) } =
        some (packet.skip written) := by
      refine current_eq_some_iff.mpr ⟨hnonneg, ?_⟩
      exact List.getElem?_set_self (by omega)
    have hdecides := decides_beginSend (s := { s with
      sendQueue := s.sendQueue.set s.sendQueueIdx.toNat (packet.skip written) }) hstate hsocket
      hnone hset (Packet.copied_eq _) (packet.skip written).msgSeq throws
    refine hdecides.congr (eq_false_iff_of_not ?_)
    rintro ⟨hle, -⟩
    omega
  · -- the packet at the index is another one now, of which nothing was sent
    obtain ⟨next, hcurrent'⟩ : ∃ next, (s.pass (packet.skip written)).current = some next := by
      have hnonneg' := (moves_pass hcurrent (packet.skip written)).nonneg hnonneg
      refine ⟨_, current_eq_some_iff.mpr ⟨hnonneg', List.getElem?_eq_getElem (by omega)⟩⟩
    have hpass := begins_pass s (packet.skip written)
    have hnone' := (pass_outstanding s (packet.skip written)).trans hnone
    have hsocket' : (s.pass (packet.skip written)).socket.isSome := hpass.socket ▸ hsocket
    have hunsent := pass_current hfresh hcurrent hcurrent'
    unfold beginCurrent
    rw [hcurrent']
    have hmore := (pass_idx_lt_iff hcurrent _).mp hnext
    refine (decides_beginSend (hpass.state.trans hstate) hsocket' hnone' hcurrent'
      (Packet.bytes_of_unsent hunsent) _ throws).congr (eq_false_iff_of_not ?_)
    rintro ⟨-, hlast⟩
    omega
  · have hlast := (pass_idx_lt_iff hcurrent _).not.mp hnext
    refine Pump.decides (fun _ => .inl ⟨?_, ?_⟩) fun _ => ⟨by omega, by omega⟩
    · have hle := (moves_pass hcurrent (packet.skip written)).le_length (Int.le_of_lt hlt)
      omega
    · exact (pass_outstanding s _).trans hnone

/-- A completion keeps the pump going if it is one on another socket, or if the send did not
fail and BeginSend does not throw when it is called. -/
theorem Pump.callbackSendMsg
    (hs : s.Pump)
    (hsockets : s.Sockets)
    (hfresh : s.Fresh)
    {op : Nat} {written : Option Nat} {throws : Bool}
    (h : s.callbackSendMsg op written throws = some s') :
    s'.Decides (s.KeepsPumping (.sent op written throws)) := by
  by_cases hstate : s.state = .connected
  case neg =>
    have hstate' : s'.state ≠ .connected := by
      rw [(begins_callbackSendMsg h).state]
      exact hstate
    exact Pump.decides (Pump.of_state hstate') fun _ _ h => absurd h hstate
  obtain ⟨operation, hop, hs'⟩ := callbackSendMsg_cases h
  have hkeeps : s.KeepsPumping (.sent op written throws) ↔
      (s.socket = some operation.socket → ∃ n, written = some n ∧
        (throws = true →
          operation.bytes.length ≤ n ∧ s.sendQueueIdx + 1 = s.sendQueue.length)) := by
    constructor
    · intro h
      exact h operation hop hstate
    · intro h operation' hop' _
      obtain rfl := Option.some.inj (hop.symm.trans hop')
      exact h
  -- what is outstanding on the socket is the send of the packet at the index
  have hsending : s.socket = some operation.socket →
      ∃ packet, s.current = some packet ∧ operation.bytes.length = packet.size ∧
        outstanding { s with sends := s.sends.eraseIdx op } = [] := by
    intro hsocket
    rcases hs hstate with ⟨hidx, hnone⟩ | ⟨packet, op', hcurrent, hone, hbytes⟩
    · have hmem : operation ∈ s.outstanding :=
        List.mem_filter.mpr ⟨List.mem_of_getElem? hop, by simpa using hsocket⟩
      rw [hnone] at hmem
      cases hmem
    obtain ⟨rfl, hnone⟩ := outstanding_eraseIdx_of_current hop hsocket hone
    exact ⟨packet, hcurrent, by rw [hbytes, Buffer.unread_length], hnone⟩
  obtain ⟨hother, rfl⟩ | ⟨hsocket, rfl, rfl⟩ | ⟨n, hsocket, rfl, rfl⟩ := hs'
  · refine Pump.decides ?_ (hkeeps.mpr fun h => absurd h hother)
    intro _
    rw [outstanding_eraseIdx_of_other hop hother]
    exact hs hstate
  · obtain ⟨packet, hcurrent, -, hnone⟩ := hsending hsocket
    refine decides_of_stalled hstate (idx_lt_of_current hcurrent).2 hnone fun h => ?_
    obtain ⟨_, hwritten, _⟩ := hkeeps.mp h hsocket
    cases hwritten
  · obtain ⟨packet, hcurrent, hlength, hnone⟩ := hsending hsocket
    have hdone : Fresh { s with sends := s.sends.eraseIdx op } := hfresh.of_eq rfl rfl
    refine (advance_decides hdone hstate (hsockets.connected hstate).2 hnone hcurrent
      (min n operation.bytes.length) throws).congr (Iff.trans ?_ hkeeps.symm)
    rw [hlength]
    constructor
    · intro h _
      refine ⟨n, rfl, fun hthrows => ?_⟩
      obtain ⟨hle, hlast⟩ := h hthrows
      exact ⟨le_trans hle (Nat.min_le_left _ _), hlast⟩
    · intro h hthrows
      obtain ⟨_, heq, hrest⟩ := h hsocket
      cases heq
      obtain ⟨hle, hlast⟩ := hrest hthrows
      exact ⟨le_min hle (Nat.le_refl _), hlast⟩

theorem Pump.heartBeat
    (hs : s.Pump)
    (hsockets : s.Sockets)
    (hbeating : s.beating = true)
    (throws : Bool) :
    (s.sendRequest 3 true throws).1.Decides (s.KeepsPumping (.heartBeat throws)) := by
  by_cases hstate : s.state = .connected
  · refine (hs.sendRequest hstate (hsockets.connected hstate).2 3 true throws).1.congr ?_
    exact ⟨fun h _ _ => h, fun h => h hbeating hstate⟩
  · refine Pump.decides (Pump.of_state ?_) fun _ h => absurd h hstate
    rw [(begins_sendRequest s 3 true throws).state]
    exact hstate

/-- An answer keeps the pump going if it does not acknowledge the packet that is being sent. -/
theorem Pump.removeSentPacket
    (hs : s.Pump)
    (msgSeq : UInt32) :
    (s.removeSentPacket msgSeq).Decides (s.state = .connected → s.Stops msgSeq) := by
  by_cases hstate : s.state = .connected
  case neg =>
    exact Pump.decides (Pump.of_state hstate) fun h => absurd h hstate
  have hvalid := hs.valid hstate
  have hcount := acknowledged_le_length s msgSeq
  have hlength : (s.removeSentPacket msgSeq).sendQueue.length =
      s.sendQueue.length - s.acknowledged msgSeq := List.length_drop
  have hidx : (s.removeSentPacket msgSeq).sendQueueIdx =
      s.sendQueueIdx - s.acknowledged msgSeq := rfl
  have hle := hvalid.le_length
  constructor
  · intro hpumping _
    rw [stops_iff hvalid]
    by_contra hmore
    obtain ⟨packet, _, hcurrent, _⟩ := hpumping hstate (by omega)
    have hnonneg := (idx_lt_of_current hcurrent).1
    omega
  · intro hstops _
    have hremoved := (stops_iff hvalid msgSeq).mp (hstops hstate)
    rcases hs hstate with ⟨hend, hnone⟩ | ⟨packet, op, hcurrent, hone, hbytes⟩
    · exact .inl ⟨by omega, hnone⟩
    · refine .inr ⟨packet, op, ?_, hone, hbytes⟩
      obtain ⟨hnonneg, hget⟩ := current_eq_some_iff.mp hcurrent
      refine current_eq_some_iff.mpr ⟨by omega, ?_⟩
      have hsum : s.acknowledged msgSeq + (s.removeSentPacket msgSeq).sendQueueIdx.toNat =
          s.sendQueueIdx.toNat := by
        omega
      exact List.getElem?_drop.trans (hsum ▸ hget)

/-- What each event does to the pump. -/
theorem Pump.step
    (hs : s.Pump)
    (hsockets : s.Sockets)
    (hfresh : s.Fresh)
    {e : PumpEvent}
    (h : s.step e = some s') :
    s'.Decides (s.KeepsPumping e) := by
  cases e with
  | connect outcome =>
      cases h
      refine Pump.decides (Pump.of_state ?_) trivial
      cases outcome <;> simp [Client.connect]
  | connected socket connected throws =>
      exact callbackConnect_decides hsockets hfresh h
  | reconnected socket connected request throws =>
      exact (pump_callbackReconnect hsockets h).decides trivial
  | sendMsg msg reliable connectThrows throws =>
      cases h
      exact hs.sendMsg hsockets msg reliable connectThrows throws
  | sent op written throws =>
      exact hs.callbackSendMsg hsockets hfresh h
  | heartBeat throws =>
      simp only [Client.step] at h
      split_ifs at h with hbeating
      cases h
      exact hs.heartBeat hsockets hbeating throws
  | close =>
      cases h
      refine Pump.decides (Pump.of_state ?_) trivial
      simp [Client.close]
  | process msgSeq =>
      simp only [Client.step] at h
      split_ifs at h
      cases h
      exact Pump.decides hs trivial
  | answer =>
      cases h
      exact Pump.decides hs trivial
  | recvHeartBeatAns =>
      simp only [Client.step] at h
      split at h <;> cases h
      rename_i msgSeq answers hanswers
      have hpopped : Pump { s with answers := answers } := hs
      refine (hpopped.removeSentPacket msgSeq).congr ?_
      constructor
      · intro h m rest heq
        obtain ⟨rfl, -⟩ := List.cons.inj (hanswers.symm.trans heq)
        exact h
      · intro h
        exact h msgSeq answers hanswers

/-- An event that is not possible meets the condition. -/
theorem keepsPumping_of_step_eq_none
    {e : PumpEvent}
    (h : s.step e = none) :
    s.KeepsPumping e := by
  cases e with
  | connected socket connected throws =>
      intro hmem
      simp only [Client.step, Client.callbackConnect, if_pos hmem] at h
      split_ifs at h
      split at h <;> cases h
  | sent op written throws =>
      intro operation hop
      simp only [Client.step, Client.callbackSendMsg, hop] at h
      split_ifs at h
      split at h <;> cases h
  | heartBeat throws =>
      intro hbeating
      simp only [Client.step, if_pos hbeating] at h
      cases h
  | recvHeartBeatAns =>
      intro msgSeq answers hanswers
      simp only [Client.step, hanswers] at h
      cases h
  | sendMsg msg reliable connectThrows throws =>
      cases h
  | _ =>
      trivial

end Pump

/-- What holds in every state of a run whose steps keep the pump going. -/
structure Inv (s : Client) : Prop where
  sockets : s.Sockets
  fresh : s.Fresh
  pump : s.Pump

theorem inv_new :
    Inv new where
  sockets := sockets_new
  fresh := fresh_of_nil rfl rfl
  pump := Pump.of_state nofun

/-- A message is queued while the connection is made. -/
def earlyMessage : List PumpEvent :=
  [.connect .started, .sendMsg { msgId := 5, stored := [], size := 0 } true false false,
    .connected 0 true false]

end Client
end Unity
end Gamnet
