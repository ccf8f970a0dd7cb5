import Gamnet.Tcp.Rounds
import Mathlib.Data.List.Forall2

/-!
# Frames that are examined and dispatched

The trace of a run determines, for each session, the packets that the receive
loop examined and those that the dispatcher received. They are compared with
the frames of a byte stream through the header accessors and the queued bytes.

`accepted` is the sequence number test on a list of frames: the Tcp manager
keeps a frame when its number is above the last one kept, the Router manager
keeps every frame.
-/

namespace Gamnet
namespace Tcp

/-- The packet of an examine event of session s. -/
def Event.examinedBy (s : SessionId) : Event → Option Packet
  | .examine t p => if t = s then some p else none
  | _ => none

/-- The packet of a dispatch event of session s. -/
def Event.dispatchedTo (s : SessionId) : Event → Option Packet
  | .dispatch t p => if t = s then some p else none
  | _ => none

namespace World

variable {A : Type}

/-- The packets examined for a session, in order. -/
def examined (w : World A) (s : SessionId) : List Packet :=
  (w.trace.filterMap (Event.examinedBy s)).reverse

/-- The packets dispatched to a session, in order. -/
def dispatched (w : World A) (s : SessionId) : List Packet :=
  (w.trace.filterMap (Event.dispatchedTo s)).reverse

theorem examined_log_examine
    (w : World A) (s : SessionId) (p : Packet) :
    (w.log (.examine s p)).examined s = w.examined s ++ [p] := by
  simp [examined, Event.examinedBy]

theorem dispatched_log_examine
    (w : World A) (s t : SessionId) (p : Packet) :
    (w.log (.examine t p)).dispatched s = w.dispatched s := by
  rfl

theorem dispatched_log_dispatch
    (w : World A) (s : SessionId) (p : Packet) :
    (w.log (.dispatch s p)).dispatched s = w.dispatched s ++ [p] := by
  simp [dispatched, Event.dispatchedTo]

theorem dispatched_log_dispatch_of_ne
    (w : World A) {s t : SessionId} (p : Packet)
    (hne : t ≠ s) :
    (w.log (.dispatch s p)).dispatched t = w.dispatched t := by
  simp [dispatched, Event.dispatchedTo, Ne.symm hne]

/-- The observations depend on the trace only. -/
theorem examined_of_trace_eq
    {w w' : World A}
    (h : w'.trace = w.trace)
    (s : SessionId) :
    w'.examined s = w.examined s := by
  simp only [examined, h]

theorem dispatched_of_trace_eq
    {w w' : World A}
    (h : w'.trace = w.trace)
    (s : SessionId) :
    w'.dispatched s = w.dispatched s := by
  simp only [dispatched, h]

/-- Links that close are not observed. -/
theorem dispatched_of_closed
    {w w' : World A} {closed : List LinkId}
    (h : w'.trace = closed.map Event.close ++ w.trace)
    (s : SessionId) :
    w'.dispatched s = w.dispatched s := by
  have hnone : (closed.map Event.close).filterMap (Event.dispatchedTo s) =
      [] := by
    simp [List.filterMap_map, Function.comp_def, Event.dispatchedTo]
  simp only [dispatched, h, List.filterMap_append, hnone, List.nil_append]

end World

/-- A steady function examines nothing. -/
theorem Steady.examined_eq
    {A : Type} {s : SessionId} {w w' : World A}
    (h : Steady s w w')
    (t : SessionId) :
    w'.examined t = w.examined t := by
  obtain ⟨closed, htrace, _⟩ := h.trace
  have hnone : (closed.map Event.close).filterMap (Event.examinedBy t) =
      [] := by
    simp [List.filterMap_map, Function.comp_def, Event.examinedBy]
  simp only [World.examined, htrace, List.filterMap_append, hnone,
    List.nil_append]

/-- A steady function dispatches nothing. -/
theorem Steady.dispatched_eq
    {A : Type} {s : SessionId} {w w' : World A}
    (h : Steady s w w')
    (t : SessionId) :
    w'.dispatched t = w.dispatched t := by
  obtain ⟨closed, htrace, _⟩ := h.trace
  exact World.dispatched_of_closed htrace t

/-- The header accessors of a packet return the fields of a frame. -/
structure ShowsHeader (p : Packet) (f : Frame) : Prop where
  getLength : p.getLength = f.length
  getSEQ : p.getSEQ = f.seq
  getID : p.getID = f.id

/-- A packet whose queued bytes start with a frame and whose header accessors
return the fields of that frame. -/
structure Shows (p : Packet) (f : Frame) : Prop extends ShowsHeader p f where
  bytes : f.bytes <+: p.unread

/-- A frame that is queued at the front of the array is shown. -/
theorem shows_of_front
    {p : Packet} {f : Frame} {rest : List UInt8}
    (hread : p.readCursor = 0)
    (hfront : p.unread = f.bytes ++ rest) :
    Shows p f := by
  refine ⟨⟨?_, ?_, ?_⟩, ?_⟩
  · exact getLength_of_front hread hfront
  · exact getSEQ_of_front hread hfront
  · exact getID_of_front hread hfront
  · rw [hfront]
    exact List.prefix_append _ _

/-- A complete header of an unfinished frame is shown as well. -/
theorem showsHeader_of_initial
    {p : Packet} {f : Frame} {t : List UInt8}
    (hread : p.readCursor = 0)
    (hunread : p.unread = t)
    (hinit : t <+: f.bytes)
    (hheader : headerSize ≤ t.length) :
    ShowsHeader p f := by
  obtain ⟨rest, hrest⟩ := hinit
  have hlen : headerSize ≤ p.unread.length := by
    rw [hunread]
    exact hheader
  have hten : 10 ≤ t.length := hheader
  refine ⟨?_, ?_, ?_⟩
  · rw [Packet.getLength_eq hread hlen, hunread]
    have hlength := f.isFrame.lengthOf_eq
    rw [← hrest] at hlength
    rw [← LittleEndian.wordAt_append (by omega) rest]
    rw [Frame.length, ← hrest]
    exact hlength
  · rw [Packet.getSEQ_eq hread hlen, hunread, Frame.seq, ← hrest]
    exact (LittleEndian.wordAt_append (by omega) rest).symm
  · rw [Packet.getID_eq hread hlen, hunread, Frame.id, ← hrest]
    exact (LittleEndian.wordAt_append (by omega) rest).symm

section Deliveries

variable {A : Type} (env : Env A)

/-- A delivery dispatches a frame that passes the test to the session of the
loop. -/
theorem dispatched_deliver_of_passes
    (cur : LinkId) (w : World A) (s : SessionId)
    (hpasses : passes env w s (w.recvPacket s) = true) :
    (deliver env cur w s).world.dispatched s =
      w.dispatched s ++ [w.recvPacket s] := by
  obtain ⟨closed, htrace⟩ := trace_deliver env cur w s
  rw [if_pos hpasses] at htrace
  rw [World.dispatched_of_closed (w := (w.log (.examine s (w.recvPacket s))).log
    (.dispatch s (w.recvPacket s))) htrace s, World.dispatched_log_dispatch,
    World.dispatched_log_examine]

end Deliveries

section Accepted

/-- The sequence number test of a manager on one frame. -/
def Kind.accepts (kind : Kind) (msgSeq : Nat) (f : Frame) : Bool :=
  match kind with
  | .tcp => decide (msgSeq < f.seq)
  | .router => true

/-- The sequence number of the session behind a frame. -/
def Kind.nextSeq (kind : Kind) (msgSeq : Nat) (f : Frame) : Nat :=
  match kind with
  | .tcp => if msgSeq < f.seq then f.seq else msgSeq
  | .router => msgSeq

/-- The frames that pass the sequence number test. -/
def accepted (kind : Kind) : Nat → List Frame → List Frame
  | _, [] => []
  | msgSeq, f :: fs =>
      if kind.accepts msgSeq f then
        f :: accepted kind (kind.nextSeq msgSeq f) fs
      else accepted kind (kind.nextSeq msgSeq f) fs

/-- The sequence number of the session behind a list of frames. -/
def lastSeq (kind : Kind) (msgSeq : Nat) (fs : List Frame) : Nat :=
  fs.foldl kind.nextSeq msgSeq

@[simp] theorem lastSeq_nil
    (kind : Kind) (msgSeq : Nat) :
    lastSeq kind msgSeq [] = msgSeq := by
  rfl

@[simp] theorem lastSeq_cons
    (kind : Kind) (msgSeq : Nat) (f : Frame) (fs : List Frame) :
    lastSeq kind msgSeq (f :: fs) =
      lastSeq kind (kind.nextSeq msgSeq f) fs := by
  rfl

/-- Frames that arrive in two groups: the test goes on with the number behind
the first group. -/
theorem accepted_append
    (kind : Kind) (msgSeq : Nat) (fs gs : List Frame) :
    accepted kind msgSeq (fs ++ gs) =
      accepted kind msgSeq fs ++
        accepted kind (lastSeq kind msgSeq fs) gs := by
  induction fs generalizing msgSeq with
  | nil =>
      rfl
  | cons f fs ih =>
      simp only [List.cons_append, accepted, ih, lastSeq_cons]
      split
      · rfl
      · rfl

theorem lastSeq_append
    (kind : Kind) (msgSeq : Nat) (fs gs : List Frame) :
    lastSeq kind msgSeq (fs ++ gs) =
      lastSeq kind (lastSeq kind msgSeq fs) gs := by
  simp only [lastSeq, List.foldl_append]

/-- A frame that passes the test is one of the frames. -/
theorem mem_of_mem_accepted
    {kind : Kind} {msgSeq : Nat} {fs : List Frame} {f : Frame}
    (hf : f ∈ accepted kind msgSeq fs) :
    f ∈ fs := by
  induction fs generalizing msgSeq with
  | nil =>
      exact hf
  | cons g fs ih =>
      rw [accepted] at hf
      split at hf
      · rcases List.mem_cons.mp hf with rfl | hf
        · exact List.mem_cons_self
        · exact List.mem_cons_of_mem g (ih hf)
      · exact List.mem_cons_of_mem g (ih hf)

/-- The test in front of the dispatcher, on the frame at the front. -/
theorem passes_of_front
    {A : Type} (env : Env A)
    {w : World A} {s : SessionId} {f : Frame} {rest : List UInt8}
    (h : Holds w s (f.bytes ++ rest)) :
    passes env w s (w.recvPacket s) =
      env.kind.accepts (w.sessions s).msgSeq f := by
  have hseq := getSEQ_of_front h.readCursor h.unread
  simp only [passes, Kind.accepts]
  cases env.kind with
  | tcp =>
      rw [hseq]
  | router =>
      rfl

end Accepted

end Tcp
end Gamnet
