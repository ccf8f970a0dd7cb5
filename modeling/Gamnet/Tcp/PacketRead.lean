import Gamnet.Lib.Reader
import Gamnet.Tcp.Invariant
import Gamnet.Tcp.PacketWrite
import Gamnet.Tcp.Segmentation

/-!
# The bytes that a handler decodes

Packet::Read decodes the bytes between the header and the length of a packet,
and Recv_Reconnect_Req takes as many bytes behind the header as the packet
holds with the header. The windows are compared with the frame that the packet
was given for.
-/

namespace Gamnet
namespace Tcp

/-- The bytes behind the header, up to the length in the header. The difference
is a size_t. -/
def Packet.bodyLength (p : Packet) : UInt64 :=
  UInt64.ofNat p.getLength - UInt64.ofNat headerSize

/-- Packet::Read. The memory behind the array is not the packet's. -/
def Packet.read
    {α : Type}
    (beyond : Nat → UInt8)
    (load : Reader.Load α)
    (p : Packet) : Reader.Outcome α :=
  load (Reader.start
    (fun i => p.data.getD (p.readCursor + headerSize + i) (beyond i)) p.bodyLength)

theorem bodyLength_toNat
    {p : Packet}
    (hheader : headerSize ≤ p.getLength) :
    p.bodyLength.toNat = p.getLength - headerSize := by
  have hlt := p.getLength_lt
  have hheader' : (UInt64.ofNat headerSize).toNat = headerSize := by
    rfl
  have hlength : (UInt64.ofNat p.getLength).toNat = p.getLength := by
    rw [UInt64.toNat_ofNat', Nat.mod_eq_of_lt (by omega)]
  have hle : UInt64.ofNat headerSize ≤ UInt64.ofNat p.getLength := by
    rw [UInt64.le_iff_toNat_le, hheader', hlength]
    exact hheader
  rw [Packet.bodyLength, UInt64.toNat_sub_of_le _ _ hle, hheader', hlength]

section Reading

variable {p : Packet} {msgSeq msgId : Nat} {body : List UInt8}

/-- The bytes at the body of a written packet. -/
theorem bytesAt_body
    (beyond : Nat → UInt8)
    (hread : p.readCursor = 0)
    (hunread : p.unread = written msgSeq msgId body) :
    Reader.bytesAt
      (fun i => p.data.getD (p.readCursor + headerSize + i) (beyond i)) 0 body.length = body := by
  have hdata := Buffer.data_eq_unread_append hread
  rw [hunread, written] at hdata
  apply List.ext_getElem (by simp)
  intro i hi hi'
  have hheader : (LittleEndian.encode 2 (headerSize + body.length) ++
      LittleEndian.encode 4 msgSeq ++ LittleEndian.encode 4 msgId).length = headerSize := by
    simp [headerSize]
  have hget : p.data[headerSize + i]? = some body[i] := by
    rw [hdata, List.append_assoc, List.getElem?_append_right (by rw [hheader]; omega), hheader,
      Nat.add_sub_cancel_left, List.getElem?_append_left hi', List.getElem?_eq_getElem hi']
  simp [Reader.bytesAt, hread, List.getD_eq_getElem?_getD, hget]

/-- Packet::Read of a written packet decodes the body. -/
theorem read_of_written
    {α : Type} {load : Reader.Load α} {a : α}
    (beyond : Nat → UInt8)
    (hlen : headerSize + body.length < Buffer.maxSize)
    (hread : p.readCursor = 0)
    (hunread : p.unread = written msgSeq msgId body)
    (hreads : Reader.Reads load a body) :
    ∃ c, p.read beyond load = .returns a c := by
  have hlength := getLength_of_unread hlen hread hunread
  have hcount : p.bodyLength.toNat = body.length := by
    rw [bodyLength_toNat (by rw [hlength]; omega), hlength]
    omega
  have hfront := bytesAt_body beyond hread hunread
  obtain ⟨c, hload, _⟩ := hreads (Reader.start
    (fun i => p.data.getD (p.readCursor + headerSize + i) (beyond i)) p.bodyLength) []
    (by rw [Reader.unread_start, hcount, hfront, List.append_nil])
  exact ⟨c, hload⟩

end Reading

/-- A range of bytes, counted from ReadPtr(). -/
structure Window where
  first : Nat
  count : Nat

/-- The range lies in the first n bytes. -/
def Window.Within (x : Window) (n : Nat) : Prop :=
  ∀ i, x.first ≤ i → i < x.first + x.count → i < n

/-- What Packet::Read decodes. -/
def Packet.readWindow (p : Packet) : Window :=
  { first := headerSize, count := p.bodyLength.toNat }

/-- The text of Recv_Reconnect_Req. -/
def Packet.textWindow (p : Packet) : Window :=
  { first := headerSize, count := p.size }

section Windows

variable {A : Type}

/-- What a handler decodes. An application handler reads its packet by
Packet::Read; the requests without a body are not read. -/
def Handler.window (h : Handler A) (p : Packet) : Option Window :=
  match h with
  | .connectReq => none
  | .heartBeatReq => none
  | .reconnectReq => some p.textWindow
  | .user _ => some p.readWindow

/-- A packet that holds its frame, and whose decoded bytes are bytes of the
frame. -/
def DecodesOwn (p : Packet) (x : Option Window) : Prop :=
  p.HoldsFrame ∧ ∀ window, x = some window → window.Within p.getLength

theorem readWindow_within
    {p : Packet}
    (hheader : headerSize ≤ p.getLength) :
    p.readWindow.Within p.getLength := by
  intro i _ hi
  simp only [Packet.readWindow, bodyLength_toNat hheader] at hi
  omega

/-- The text of a Reconnect_Req ends behind the frame. -/
theorem textWindow_not_within
    {p : Packet}
    (hp : p.HoldsFrame) :
    ¬ p.textWindow.Within p.getLength := by
  intro hwithin
  rcases hp with ⟨hheader, hwhole⟩
  have hpos : 0 < headerSize := by
    decide
  have hlast := hwithin (headerSize + p.size - 1)
    (by simp only [Packet.textWindow]; omega) (by simp only [Packet.textWindow]; omega)
  omega

theorem readWindow_decodesOwn_iff
    (p : Packet) :
    DecodesOwn p (some p.readWindow) ↔ p.HoldsFrame := by
  constructor
  · exact fun h => h.1
  · intro h
    refine ⟨h, ?_⟩
    rintro window hwindow
    cases hwindow
    exact readWindow_within h.1

/-- On a packet that holds its frame, every handler but Recv_Reconnect_Req
decodes bytes of the frame only. -/
theorem decodesOwn_iff
    (h : Handler A)
    {p : Packet}
    (hp : p.HoldsFrame) :
    DecodesOwn p (h.window p) ↔ h ≠ .reconnectReq := by
  cases h with
  | connectReq =>
      simp [Handler.window, DecodesOwn, hp]
  | heartBeatReq =>
      simp [Handler.window, DecodesOwn, hp]
  | reconnectReq =>
      simp only [Handler.window, ne_eq, not_true_eq_false, iff_false]
      rintro ⟨_, hwithin⟩
      exact textWindow_not_within hp (hwithin _ rfl)
  | user u =>
      simp only [Handler.window, readWindow_decodesOwn_iff, hp, true_iff]
      intro heq
      cases heq

end Windows

section Runs

variable {A : Type} (env : Env A)

/-- Every packet that was dispatched holds its frame. -/
def DispatchesFrames (w : World A) : Prop :=
  ∀ s packet, Event.dispatch s packet ∈ w.trace → packet.HoldsFrame

theorem dispatchesFrames_of_trace
    {w w' : World A}
    {closed : List LinkId}
    (h : DispatchesFrames w)
    (htrace : w'.trace = closed.map Event.close ++ w.trace) :
    DispatchesFrames w' := by
  intro s packet hmem
  rw [htrace] at hmem
  rcases List.mem_append.mp hmem with hmem | hmem
  · obtain ⟨l, _, hclose⟩ := List.mem_map.mp hmem
    cases hclose
  · exact h s packet hmem

theorem dispatchesFrames_deliver
    {w : World A}
    (h : DispatchesFrames w)
    (cur : LinkId) (s : SessionId)
    (hframe : (w.recvPacket s).HoldsFrame) :
    DispatchesFrames (deliver env cur w s).world := by
  obtain ⟨closed, htrace⟩ := trace_deliver env cur w s
  intro t packet hmem
  rw [htrace] at hmem
  rcases List.mem_append.mp hmem with hmem | hmem
  · obtain ⟨l, _, hclose⟩ := List.mem_map.mp hmem
    cases hclose
  · rcases List.mem_append.mp hmem with hmem | hmem
    · split at hmem
      · cases List.mem_singleton.mp hmem
        exact hframe
      · cases hmem
    · rcases List.mem_cons.mp hmem with hmem | hmem
      · cases hmem
      · exact h t packet hmem

theorem isInvariant_dispatchesFrames :
    IsInvariant env DispatchesFrames DispatchesFrames where
  weaken := fun _ h => h
  mild := by
    intro w w' h hmild
    obtain ⟨closed, htrace⟩ := hmild.trace
    exact dispatchesFrames_of_trace h htrace
  deliver_ok := by
    intro cur w s w' h hframe hdeliver
    have hdeliver' := dispatchesFrames_deliver env h cur s hframe
    rw [hdeliver] at hdeliver'
    exact hdeliver'
  deliver_world := fun cur _ s h hframe => dispatchesFrames_deliver env h cur s hframe
  accept := by
    intro w s x h _ _ t packet hmem
    rcases List.mem_cons.mp hmem with hmem | hmem
    · cases hmem
    · exact h t packet hmem

/-- Wherever a run ends, every packet that was dispatched held its frame. -/
theorem run_dispatchesFrames
    (app : A) (steps : List Step) :
    DispatchesFrames (run env (World.initial app) steps).world := by
  have hkeeps := run_invariant (isInvariant_dispatchesFrames env) steps
    (w := World.initial app) (by intro s packet hmem; cases hmem)
  exact hkeeps.world fun _ hw => hw

/-- A frame that passes the sequence number test is in the trace behind its
delivery. -/
theorem dispatch_mem_deliver
    {w : World A} {cur : LinkId} {s : SessionId} {f : Frame} {rest : List UInt8}
    (h : Holds w s (f.bytes ++ rest))
    (haccepts : env.kind.accepts (w.sessions s).msgSeq f = true) :
    .dispatch s (w.recvPacket s) ∈ (deliver env cur w s).world.trace := by
  obtain ⟨closed, htrace⟩ := trace_deliver env cur w s
  rw [htrace, if_pos ((passes_of_front env h).trans haccepts)]
  exact List.mem_append_right _ (by simp)

/-- The loop on a frame and nothing behind it ends behind the delivery. -/
theorem mem_recvLoop_of_frame
    {w : World A} {cur : LinkId} {s : SessionId} {f : Frame} {e : Event}
    (h : Holds w s (f.bytes ++ []))
    (hdeliver : e ∈ (deliver env cur w s).world.trace) :
    e ∈ (recvLoop env cur s w).world.trace := by
  rcases recvRound_of_frame_cases env h cur with
    ⟨w₁, hreturns, _⟩ | hround
  · rw [hreturns, Outcome.world_ok] at hdeliver
    obtain ⟨w₂, hloop, _, hadvanced, _⟩ := recvLoop_single env h hreturns
    rw [hloop, Outcome.world_ok, hadvanced.trace]
    exact hdeliver
  · simp only [recvLoop, WhileLoop.run_done hround]
    exact hdeliver

/-- A read that is a frame dispatches it, whatever its handler does. -/
theorem dispatch_mem_of_read
    {w : World A} {l : LinkId} {s : SessionId} {f : Frame}
    (h : Receiving w l s [])
    (haccepts : env.kind.accepts (w.sessions s).msgSeq f = true) :
    ∃ packet, Shows packet f ∧
      .dispatch s packet ∈ (onRecvMsg env l w f.bytes).world.trace := by
  have htouch := receiving_touch env h
  have hfits : ([] : List UInt8).length + f.bytes.length ≤ Buffer.maxSize := by
    rw [List.length_nil, Nat.zero_add]
    exact Nat.le_of_lt f.length_lt
  obtain ⟨packet, happend, hholds⟩ := htouch.toHolds.append hfits
  rw [List.nil_append] at hholds
  have hfront : Holds ((touch env w s).setPacket ((touch env w s).sessions s).recvPacket packet) s
      (f.bytes ++ []) := by
    rw [List.append_nil]
    exact hholds
  have haccepts' : env.kind.accepts (((touch env w s).setPacket
      ((touch env w s).sessions s).recvPacket packet).sessions s).msgSeq f = true := by
    rw [World.setPacket_sessions, touch_msgSeq]
    exact haccepts
  have hdispatch : .dispatch s _ ∈ (deliver env l _ s).world.trace :=
    dispatch_mem_deliver env hfront haccepts'
  have hmem := mem_recvLoop_of_frame env hfront hdispatch
  refine ⟨_, shows_of_front hfront.readCursor hfront.unread, ?_⟩
  rw [onRecvMsg_of_append env h.session happend]
  exact hmem

end Runs

end Tcp
end Gamnet
