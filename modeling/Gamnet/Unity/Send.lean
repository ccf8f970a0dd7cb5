import Gamnet.Unity.Session

/-!
# Packets that the client queues

SendMsg cuts the length of a packet to 16 bits before it compares it with
BUFFER_SIZE. A body that is too long is refused all the same: it does not fit
into the array of the packet. A message that is queued without an error is
queued as a whole.
-/

namespace Gamnet
namespace Unity

open LittleEndian

namespace Packet

/-- The bytes of a packet: its header and its body. -/
def written (length : Nat) (msgSeq msgId : UInt32) (body : List UInt8) : List UInt8 :=
  encode 2 length ++ encode 4 msgSeq.toNat ++ encode 4 msgId.toNat ++ body

theorem header_take
    (length : Nat)
    (msgSeq msgId : UInt32)
    (reliable : Bool) :
    (header length msgSeq msgId reliable).data.take headerSize =
      written length msgSeq msgId [] := by
  have hempty : Buffer.empty.data.length = bufferSize := Buffer.empty.data_length
  unfold bufferSize at hempty
  have hseq := @Gamnet.Buffer.overwrite_overwrite Buffer.empty.data (encode 2 length)
    (encode 4 msgSeq.toNat) (by simp [hempty])
  have hid := @Gamnet.Buffer.overwrite_overwrite Buffer.empty.data
    (encode 2 length ++ encode 4 msgSeq.toNat) (encode 4 msgId.toNat) (by simp [hempty])
  have htake := @Gamnet.Buffer.take_overwrite Buffer.empty.data
    (encode 2 length ++ encode 4 msgSeq.toNat ++ encode 4 msgId.toNat) (by simp [hempty])
  simp only [List.length_append, encode_length] at hseq hid htake
  simp only [header, hseq, hid, written, List.append_nil]
  exact htake

/-- A body that fits behind the header. -/
theorem append_header
    {body : List UInt8}
    (length : Nat)
    (msgSeq msgId : UInt32)
    (reliable : Bool)
    (hfits : headerSize + body.length ≤ bufferSize) :
    ∃ packet, (header length msgSeq msgId reliable).append body = .ok packet ∧
      packet.bytes = written length msgSeq msgId body := by
  obtain ⟨b, happend, _, hread, htake⟩ :=
    @Buffer.append_spec (header length msgSeq msgId reliable).toBuffer body hfits
  refine ⟨{ header length msgSeq msgId reliable with toBuffer := b }, ?_, ?_⟩
  · simp only [append, happend]
  · have hzero : b.readIndex = 0 := hread
    have hheader : (header length msgSeq msgId reliable).data.take
        (header length msgSeq msgId reliable).writeIndex =
          written length msgSeq msgId [] :=
      header_take length msgSeq msgId reliable
    simp only [bytes, Buffer.size, hzero, Nat.sub_zero]
    rw [htake, hheader]
    simp only [written, List.append_nil]

theorem append_header_error
    {body : List UInt8}
    (length : Nat)
    (msgSeq msgId : UInt32)
    (reliable : Bool)
    (hlong : bufferSize < headerSize + body.length) :
    (header length msgSeq msgId reliable).append body = .error invalidOffLen := by
  have happend :
      (header length msgSeq msgId reliable).toBuffer.append body = .error invalidOffLen :=
    Buffer.append_of_not_fits hlong
  simp only [append, happend]

end Packet

namespace Session

variable {F : Type} {s : Session F} {socket : Socket} {msg : Msg}

/-- A call of SendMsg has queued a packet and raised no error. -/
structure Queues (s s' : Session F) (packet : Packet) : Prop where
  noError : ∃ es, s'.trace = s.trace ++ es ∧ ∀ code message, .error code message ∉ es
  queued : ∃ later, s'.sendQueue = s.sendQueue ++ packet :: later

@[simp] theorem caught_sendQueue
    (r : Session F × Option String) :
    (caught r).sendQueue = r.1.sendQueue := by
  rcases r with ⟨s', _ | e⟩ <;> rfl

/-- An exception in SendMsg raises an error. -/
theorem caught_noError_iff
    {r : Session F × Option String}
    (htrace : r.1.trace = s.trace) :
    (∃ es, (caught r).trace = s.trace ++ es ∧
        ∀ code message, .error code message ∉ es) ↔ r.2 = none := by
  rcases r with ⟨s', _ | e⟩
  · exact ⟨fun _ => rfl, fun _ => ⟨[], by simpa [caught] using htrace, by simp⟩⟩
  · have hcaught : (caught (s', some e)).trace =
        s.trace ++ [.error .undefinedError e] := by
      rw [← htrace]
      rfl
    constructor
    · rintro ⟨es, hes, hnone⟩
      rw [hcaught] at hes
      exact absurd (by simp [← List.append_cancel_left hes])
        (hnone .undefinedError e)
    · intro h
      cases h

theorem sendPacket_spec
    (socket : Socket)
    (s : Session F)
    (packet : Packet) :
    (s.sendPacket socket packet).1 =
        { s with sendQueue := s.sendQueue ++ [packet] } ∧
      (socket.beginSend = none → (s.sendPacket socket packet).2 = none) := by
  unfold sendPacket
  dsimp only
  split_ifs
  · exact ⟨rfl, fun h => h⟩
  · exact ⟨rfl, fun _ => rfl⟩

/-- Sending a packet or a heartbeat only queues packets. -/
theorem sendHeartBeatReq_spec
    (socket : Socket)
    (s : Session F) :
    (s.sendHeartBeatReq socket).1.trace = s.trace ∧
      (∃ heartBeat, (s.sendHeartBeatReq socket).1.sendQueue = s.sendQueue ++ [heartBeat]) ∧
      (socket.beginSend = none → (s.sendHeartBeatReq socket).2 = none) := by
  obtain ⟨hafter, hquiet⟩ := sendPacket_spec socket { s with msgSeq := s.msgSeq + 1 }
    (.header headerSize (s.msgSeq + 1) 3 true)
  unfold sendHeartBeatReq
  dsimp only
  rw [hafter]
  exact ⟨rfl, ⟨_, rfl⟩, hquiet⟩

/-- A body that does not fit into the array of a packet. -/
theorem sendBody_of_not_fits
    (packetLength : Nat)
    (handOverRelility : Bool)
    (hlong : bufferSize < headerSize + msg.stored.length) :
    (s.sendBody socket packetLength msg handOverRelility).1.trace = s.trace ∧
      (s.sendBody socket packetLength msg handOverRelility).2 = some invalidOffLen := by
  unfold sendBody
  simp only [Packet.append_header_error _ _ _ _ hlong, and_self]

/-- A body that fits is queued behind its header. -/
theorem sendBody_of_fits
    (s : Session F)
    (packetLength : Nat)
    (handOverRelility : Bool)
    (hfits : headerSize + msg.stored.length ≤ bufferSize) :
    (s.sendBody socket packetLength msg handOverRelility).1.trace = s.trace ∧
      (∃ packet later,
        (s.sendBody socket packetLength msg handOverRelility).1.sendQueue =
            s.sendQueue ++ packet :: later ∧
          packet.bytes = Packet.written packetLength (s.msgSeq + 1) msg.msgId msg.stored) ∧
      (socket.beginSend = none →
        (s.sendBody socket packetLength msg handOverRelility).2 = none) := by
  obtain ⟨packet, happend, hbytes⟩ := Packet.append_header packetLength (s.msgSeq + 1)
    msg.msgId handOverRelility hfits
  obtain ⟨hafter, hquiet⟩ := sendPacket_spec socket { s with msgSeq := s.msgSeq + 1 } packet
  unfold sendBody
  simp only [happend]
  cases hsend : sendPacket socket { s with msgSeq := s.msgSeq + 1 } packet with
  | mk s₁ e =>
      rw [hsend] at hafter hquiet
      cases hafter
      cases e with
      | some e =>
          exact ⟨rfl, ⟨packet, [], rfl, hbytes⟩, fun h => (nomatch hquiet h)⟩
      | none =>
          dsimp only
          split_ifs
          · obtain ⟨htrace, ⟨heartBeat, hqueue⟩, hnone⟩ := sendHeartBeatReq_spec socket
              { s with msgSeq := s.msgSeq + 1, sendQueue := s.sendQueue ++ [packet] }
            refine ⟨htrace, ⟨packet, [heartBeat], ?_, hbytes⟩, hnone⟩
            rw [hqueue]
            exact List.append_assoc _ _ _
          · exact ⟨rfl, ⟨packet, [], rfl, hbytes⟩, fun _ => rfl⟩

/-- What SendMsg catches: it starts from the session behind Reconnect, and it
refuses a length above BUFFER_SIZE. -/
theorem sendMsg_eq
    (s : Session F)
    (handOverRelility : Bool) :
    ∃ s₁ : Session F, s₁.trace = s.trace ∧ s₁.sendQueue = s.sendQueue ∧
      s₁.msgSeq = s.msgSeq ∧
      ((∃ e, (s.sendMsg socket msg handOverRelility) = caught (s₁, some e) ∧
          (socket.beginConnect = none → bufferSize < ushort (headerSize + msg.size))) ∨
        ushort (headerSize + msg.size) ≤ bufferSize ∧
          s.sendMsg socket msg handOverRelility =
            caught (s₁.sendBody socket (ushort (headerSize + msg.size)) msg
              handOverRelility)) := by
  have hreconnect : ∃ s₁ : Session F, ∃ e, s.reconnect socket = (s₁, e) ∧
      s₁.trace = s.trace ∧ s₁.sendQueue = s.sendQueue ∧ s₁.msgSeq = s.msgSeq ∧
        (socket.beginConnect = none → e = none) := by
    unfold reconnect
    split_ifs
    · exact ⟨_, _, rfl, rfl, rfl, rfl, fun h => h⟩
    · exact ⟨_, _, rfl, rfl, rfl, rfl, fun _ => rfl⟩
  obtain ⟨s₁, e, heq, htrace, hqueue, hseq, hquiet⟩ := hreconnect
  refine ⟨s₁, htrace, hqueue, hseq, ?_⟩
  unfold sendMsg
  rw [heq]
  cases e with
  | some e =>
      exact .inl ⟨e, rfl, fun h => (nomatch hquiet h)⟩
  | none =>
      dsimp only
      split_ifs with hlong
      · exact .inl ⟨_, rfl, fun _ => hlong⟩
      · exact .inr ⟨Nat.le_of_not_lt hlong, rfl⟩

/-- A packet that is queued without an error carries the whole body. -/
theorem bytes_of_queues
    {packet : Packet}
    {handOverRelility : Bool}
    (h : Queues s (s.sendMsg socket msg handOverRelility) packet) :
    headerSize + msg.stored.length ≤ bufferSize ∧
      packet.bytes =
        Packet.written (ushort (headerSize + msg.size)) (s.msgSeq + 1) msg.msgId msg.stored := by
  obtain ⟨s₁, htrace, hqueue, hseq, ⟨e, heq, _⟩ | ⟨_, heq⟩⟩ :=
    @sendMsg_eq F socket msg s handOverRelility
  · have hnone := h.noError
    rw [heq] at hnone
    exact nomatch (caught_noError_iff htrace).mp hnone
  · by_cases hfits : headerSize + msg.stored.length ≤ bufferSize
    · obtain ⟨hbody, ⟨packet', later', hqueued, hbytes⟩, _⟩ := @sendBody_of_fits F socket msg s₁
        (ushort (headerSize + msg.size)) handOverRelility hfits
      obtain ⟨later, hlater⟩ := h.queued
      have hsame : (s.sendMsg socket msg handOverRelility).sendQueue =
          s.sendQueue ++ packet' :: later' := by
        rw [heq, caught_sendQueue, hqueued, hqueue]
      rw [hsame, List.append_cancel_left_eq, List.cons.injEq] at hlater
      rw [← hlater.1, hbytes, hseq]
      exact ⟨hfits, rfl⟩
    · obtain ⟨hbody, herror⟩ := @sendBody_of_not_fits F s₁ socket msg
        (ushort (headerSize + msg.size)) handOverRelility (Nat.lt_of_not_le hfits)
      have hnone := h.noError
      rw [heq, caught_noError_iff (hbody.trans htrace), herror] at hnone
      cases hnone

/-- A body that fits is queued if its size is known and the socket throws
nothing. -/
theorem exists_queues
    (s : Session F)
    (handOverRelility : Bool)
    (hfits : headerSize + msg.stored.length ≤ bufferSize)
    (hsize : ushort (headerSize + msg.size) = headerSize + msg.stored.length)
    (hconnect : socket.beginConnect = none)
    (hsend : socket.beginSend = none) :
    ∃ packet, Queues s (s.sendMsg socket msg handOverRelility) packet := by
  obtain ⟨s₁, htrace, hqueue, hseq, ⟨e, heq, hlong⟩ | ⟨_, heq⟩⟩ :=
    @sendMsg_eq F socket msg s handOverRelility
  · have hlong := hlong hconnect
    omega
  · obtain ⟨hbody, ⟨packet, later, hqueued, _⟩, hnone⟩ := @sendBody_of_fits F socket msg s₁
      (ushort (headerSize + msg.size)) handOverRelility hfits
    refine ⟨packet, ?_, later, ?_⟩
    · rw [heq, caught_noError_iff (hbody.trans htrace)]
      exact hnone hsend
    · rw [heq, caught_sendQueue, hqueued, hqueue]

end Session
end Unity
end Gamnet
