import Gamnet.Lib.Framing
import Gamnet.Lib.LittleEndian
import Gamnet.Library.Buffer

/-!
# Packets and frames

A packet is a buffer of the default capacity whose first ten bytes are read as
a header: a two-byte length, a four-byte sequence number and a four-byte message
id. The accessors read the header at the start of the array, while the queued
bytes start at the read cursor. The two agree exactly while the read cursor is
at the front (`Packet.getLength_eq`).

A frame is a byte string whose length field is its own length.
-/

namespace Gamnet
namespace Tcp

open LittleEndian

/-- Size of the packet header, Packet::HEADER_SIZE. -/
def headerSize : Nat := 10

/-- A buffer with the capacity that the Packet constructor requests. -/
structure Packet extends Buffer where
  capacity_eq : toBuffer.capacity = Buffer.maxSize

namespace Packet

/-- The length field, read at the start of the array. -/
def getLength (p : Packet) : Nat :=
  wordAt 0 2 p.data

/-- The sequence number, read at the start of the array. -/
def getSEQ (p : Packet) : Nat :=
  wordAt 2 4 p.data

/-- The message id, read at the start of the array. -/
def getID (p : Packet) : Nat :=
  wordAt 6 4 p.data

/-- The array of a pooled packet, as its previous user left it. -/
abbrev Storage : Type :=
  {data : List UInt8 // data.length = Buffer.maxSize}

theorem length_zeros :
    (List.replicate Buffer.maxSize (0 : UInt8)).length = Buffer.maxSize :=
  List.length_replicate

/-- A packet handed out by the pool: the cursors are reset, the bytes stay. -/
def ofStorage (data : Storage) : Packet where
  toBuffer := Buffer.ofData data.1
  capacity_eq := data.2

/-- Append on a packet. -/
def append (p : Packet) (bytes : List UInt8) : Except Exception Packet :=
  match h : p.toBuffer.append bytes with
  | .error e => .error e
  | .ok b =>
      .ok
        { toBuffer := b
          capacity_eq := by
            have hfits : ¬ p.capacity < p.size + bytes.length := by
              intro hlt
              obtain ⟨e, he⟩ := (p.toBuffer.append_error_iff bytes).2 hlt
              rw [h] at he
              cases he
            obtain ⟨b', hb', _, hcap⟩ :=
              Buffer.append_spec (Nat.le_of_not_lt hfits)
            rw [h] at hb'
            cases hb'
            rw [hcap, p.capacity_eq] }

/-- Remove on a packet. -/
def remove (p : Packet) (n : Nat) : Packet where
  toBuffer := p.toBuffer.remove n
  capacity_eq := by
    rw [Buffer.remove_capacity, p.capacity_eq]

/-- Clear on a packet. -/
def clear (p : Packet) : Packet where
  toBuffer := p.toBuffer.clear
  capacity_eq := p.capacity_eq

theorem size_le
    (p : Packet) :
    p.size ≤ Buffer.maxSize := by
  have h := p.size_le_capacity
  rw [p.capacity_eq] at h
  exact h

@[simp] theorem ofStorage_size
    (data : Storage) :
    (ofStorage data).size = 0 := by
  rfl

@[simp] theorem ofStorage_unread
    (data : Storage) :
    (ofStorage data).unread = [] := by
  rw [Buffer.unread_eq_nil_iff]
  rfl

@[simp] theorem ofStorage_readCursor
    (data : Storage) :
    (ofStorage data).readCursor = 0 := by
  rfl

@[simp] theorem remove_size
    (p : Packet)
    (n : Nat) :
    (p.remove n).size = p.size - n :=
  p.toBuffer.remove_size n

@[simp] theorem remove_unread
    (p : Packet)
    (n : Nat) :
    (p.remove n).unread = p.unread.drop n :=
  p.toBuffer.remove_unread n

/-- A packet without queued bytes has its read cursor at the front. -/
theorem readCursor_of_unread_nil
    {p : Packet}
    (hnil : p.unread = []) :
    p.readCursor = 0 := by
  apply Buffer.readCursor_eq_zero_of_size_eq_zero
  exact (Buffer.unread_eq_nil_iff p.toBuffer).1 hnil

/-- Bytes that fit are queued behind the bytes already queued. -/
theorem append_spec
    {p : Packet} {bytes : List UInt8}
    (hfits : p.size + bytes.length ≤ Buffer.maxSize) :
    ∃ q, p.append bytes = .ok q ∧
      q.unread = p.unread ++ bytes ∧
      (p.readCursor = 0 → q.readCursor = 0) := by
  have hcap : p.size + bytes.length ≤ p.capacity := by
    rw [p.capacity_eq]
    exact hfits
  obtain ⟨b, hb, hunread, _⟩ := Buffer.append_spec hcap
  unfold append
  split
  · rename_i e he
    rw [hb] at he
    cases he
  · rename_i b' hb'
    rw [hb] at hb'
    cases hb'
    refine ⟨_, rfl, hunread, ?_⟩
    intro hread
    exact Buffer.append_readCursor hread hb

/-- Append throws exactly when the bytes do not fit. -/
theorem append_error_iff
    (p : Packet)
    (bytes : List UInt8) :
    (∃ e, p.append bytes = .error e) ↔
      Buffer.maxSize < p.size + bytes.length := by
  constructor
  · rintro ⟨e, he⟩
    by_contra hlt
    obtain ⟨q, hq, _⟩ := append_spec (Nat.le_of_not_lt hlt)
    rw [he] at hq
    cases hq
  · intro hlt
    have hcap : p.capacity < p.size + bytes.length := by
      rw [p.capacity_eq]
      exact hlt
    obtain ⟨e, he⟩ := (p.toBuffer.append_error_iff bytes).2 hcap
    refine ⟨e, ?_⟩
    unfold append
    split
    · rename_i e' he'
      rw [he] at he'
      cases he'
      rfl
    · rename_i b hb
      rw [he] at hb
      cases hb

/-- While the read cursor is at the front, a word of the array that lies
inside the queued bytes is a word of the queued bytes. -/
theorem wordAt_data
    {p : Packet} {offset w : Nat}
    (hread : p.readCursor = 0)
    (hlen : offset + w ≤ p.unread.length) :
    wordAt offset w p.data = wordAt offset w p.unread := by
  rw [Buffer.data_eq_unread_append hread]
  exact wordAt_append hlen _

theorem getLength_lt
    (p : Packet) :
    p.getLength < 65536 :=
  wordAt_lt 0 2 p.data

/-- The length accessor reads the first queued header. -/
theorem getLength_eq
    {p : Packet}
    (hread : p.readCursor = 0)
    (hheader : headerSize ≤ p.unread.length) :
    p.getLength = wordAt 0 2 p.unread := by
  unfold headerSize at hheader
  exact wordAt_data hread (by omega)

/-- The sequence number accessor reads the first queued header. -/
theorem getSEQ_eq
    {p : Packet}
    (hread : p.readCursor = 0)
    (hheader : headerSize ≤ p.unread.length) :
    p.getSEQ = wordAt 2 4 p.unread := by
  unfold headerSize at hheader
  exact wordAt_data hread (by omega)

/-- The message id accessor reads the first queued header. -/
theorem getID_eq
    {p : Packet}
    (hread : p.readCursor = 0)
    (hheader : headerSize ≤ p.unread.length) :
    p.getID = wordAt 6 4 p.unread := by
  unfold headerSize at hheader
  exact wordAt_data hread (by omega)

/-- The packet holds the frame that it announces. -/
def HoldsFrame (p : Packet) : Prop :=
  headerSize ≤ p.getLength ∧ p.getLength ≤ p.size

end Packet

/-- The framing of the byte stream between two parties. -/
def frameFormat : Framing.Format UInt8 where
  header := headerSize
  limit := Buffer.maxSize
  lengthOf := wordAt 0 2
  header_pos := by decide
  lengthOf_append := by
    intro front back hlen
    unfold headerSize at hlen
    exact wordAt_append (by omega) back

/-- A byte string whose length field is its own length. -/
@[ext] structure Frame where
  bytes : List UInt8
  isFrame : frameFormat.IsFrame bytes

namespace Frame

/-- The sequence number in the header of a frame. -/
def seq (f : Frame) : Nat :=
  wordAt 2 4 f.bytes

/-- The message id in the header of a frame. -/
def id (f : Frame) : Nat :=
  wordAt 6 4 f.bytes

/-- Number of bytes of a frame, which is also its length field. -/
def length (f : Frame) : Nat :=
  f.bytes.length

theorem headerSize_le
    (f : Frame) :
    headerSize ≤ f.bytes.length :=
  f.isFrame.header_le

theorem length_lt
    (f : Frame) :
    f.length < Buffer.maxSize :=
  f.isFrame.lt_limit

theorem length_pos
    (f : Frame) :
    0 < f.length :=
  Nat.lt_of_lt_of_le (by decide) f.headerSize_le

end Frame

section Write

/-- The bytes that Packet::Write puts into a packet: the header and the body. -/
def written (msgSeq msgId : Nat) (body : List UInt8) : List UInt8 :=
  encode 2 (headerSize + body.length) ++ encode 4 msgSeq ++ encode 4 msgId ++
    body

theorem written_length
    (msgSeq msgId : Nat) (body : List UInt8) :
    (written msgSeq msgId body).length = headerSize + body.length := by
  simp only [written, List.length_append, encode_length, headerSize]

/-- The length field of a written packet. -/
theorem wordAt_written_length
    (msgSeq msgId : Nat) {body : List UInt8}
    (hbody : headerSize + body.length < Buffer.maxSize) :
    wordAt 0 2 (written msgSeq msgId body) = headerSize + body.length := by
  have hlt : headerSize + body.length < 256 ^ 2 :=
    Nat.lt_trans hbody (by decide)
  have h := wordAt_encode (w := 2) []
    (encode 4 msgSeq ++ encode 4 msgId ++ body) hlt
  simpa [written] using h

/-- A packet with a header alone fits. -/
theorem emptyBody_fits :
    headerSize + ([] : List UInt8).length < Buffer.maxSize := by
  decide

/-- A packet that Write accepts carries a frame. -/
def Frame.write
    (msgSeq msgId : Nat) (body : List UInt8)
    (hbody : headerSize + body.length < Buffer.maxSize) : Frame where
  bytes := written msgSeq msgId body
  isFrame := by
    refine ⟨?_, ?_, ?_⟩
    · rw [written_length]
      exact Nat.le_add_right _ _
    · rw [written_length]
      exact wordAt_written_length msgSeq msgId hbody
    · rw [written_length]
      exact hbody

variable {msgSeq msgId : Nat} {body : List UInt8}
variable (hbody : headerSize + body.length < Buffer.maxSize)

@[simp] theorem Frame.write_length :
    (Frame.write msgSeq msgId body hbody).length =
      headerSize + body.length :=
  written_length msgSeq msgId body

theorem Frame.write_seq
    (hseq : msgSeq < 256 ^ 4) :
    (Frame.write msgSeq msgId body hbody).seq = msgSeq := by
  have h := wordAt_encode (encode 2 (headerSize + body.length))
    (encode 4 msgId ++ body) hseq
  simpa [Frame.write, Frame.seq, written] using h

theorem Frame.write_id
    (hid : msgId < 256 ^ 4) :
    (Frame.write msgSeq msgId body hbody).id = msgId := by
  have h := wordAt_encode
    (encode 2 (headerSize + body.length) ++ encode 4 msgSeq) body hid
  simpa [Frame.write, Frame.id, written] using h

end Write

/-- The byte stream that carries a list of frames. -/
def stream (fs : List Frame) : List UInt8 :=
  (fs.map Frame.bytes).flatten

@[simp] theorem stream_nil :
    stream [] = [] := by
  rfl

@[simp] theorem stream_cons
    (f : Frame)
    (fs : List Frame) :
    stream (f :: fs) = f.bytes ++ stream fs := by
  simp [stream]

@[simp] theorem stream_append
    (fs gs : List Frame) :
    stream (fs ++ gs) = stream fs ++ stream gs := by
  simp [stream]

/-- Every frame has at least one byte. -/
theorem length_le_stream
    (fs : List Frame) :
    fs.length ≤ (stream fs).length := by
  induction fs with
  | nil =>
      exact Nat.le_refl 0
  | cons f fs ih =>
      have hpos : 0 < f.bytes.length := f.length_pos
      rw [stream_cons, List.length_append, List.length_cons]
      omega

/-- A read behind the remainder u completes the next frames and leaves a new
remainder. -/
theorem exists_next_frames
    {fs : List Frame} {t u bytes rest : List UInt8}
    (hinit : ∀ k, frameFormat.Waiting (t.take k))
    (hstream : u ++ (bytes ++ rest) = stream fs ++ t) :
    ∃ k v,
      u ++ bytes = stream (fs.take k) ++ v ∧
      v ++ rest = stream (fs.drop k) ++ t ∧
      frameFormat.Waiting v ∧
      Framing.unfinished ((fs.drop k).map Frame.length) v.length = v.length ∧
      u.length + bytes.length =
        ((fs.map Frame.length).take k).sum + v.length := by
  have hframes : ∀ b ∈ fs.map Frame.bytes, frameFormat.IsFrame b := by
    intro b hb
    obtain ⟨f, _, rfl⟩ := List.mem_map.mp hb
    exact f.isFrame
  have hlengths : ∀ gs : List Frame,
      (gs.map Frame.bytes).map List.length = gs.map Frame.length := by
    intro gs
    rw [List.map_map]
    rfl
  obtain ⟨k, v, hchunk, hrest, hwait, hboundary, hsum⟩ :=
    Framing.exists_next_chunk hframes hinit hstream
  rw [← List.map_take] at hchunk
  rw [← List.map_drop] at hrest hboundary
  rw [hlengths] at hboundary hsum
  exact ⟨k, v, hchunk, hrest, hwait, hboundary, hsum⟩

/-- Two frames at the front of one byte string are the same frame. -/
theorem Frame.eq_of_append_eq
    {f g : Frame} {u v : List UInt8}
    (h : f.bytes ++ u = g.bytes ++ v) :
    f = g ∧ u = v := by
  have hlength : f.bytes.length = g.bytes.length := by
    rw [← f.isFrame.lengthOf_append u, h, g.isFrame.lengthOf_append v]
  obtain ⟨hbytes, hrest⟩ := List.append_inj h hlength
  exact ⟨Frame.ext hbytes, hrest⟩

section Front

variable {p : Packet} {f : Frame} {rest : List UInt8}
variable (hread : p.readCursor = 0) (hfront : p.unread = f.bytes ++ rest)

include hfront in
theorem headerSize_le_of_front :
    headerSize ≤ p.unread.length := by
  have h := f.headerSize_le
  rw [hfront, List.length_append]
  omega

include hread hfront

/-- A packet that starts with a frame announces the length of that frame. -/
theorem getLength_of_front :
    p.getLength = f.length := by
  rw [Packet.getLength_eq hread (headerSize_le_of_front hfront), hfront]
  exact f.isFrame.lengthOf_append rest

/-- A packet that starts with a frame carries the sequence number of that
frame. -/
theorem getSEQ_of_front :
    p.getSEQ = f.seq := by
  have h := f.headerSize_le
  unfold headerSize at h
  rw [Packet.getSEQ_eq hread (headerSize_le_of_front hfront), hfront]
  exact wordAt_append (by omega) rest

/-- A packet that starts with a frame carries the message id of that frame. -/
theorem getID_of_front :
    p.getID = f.id := by
  have h := f.headerSize_le
  unfold headerSize at h
  rw [Packet.getID_eq hread (headerSize_le_of_front hfront), hfront]
  exact wordAt_append (by omega) rest

end Front

end Tcp
end Gamnet
