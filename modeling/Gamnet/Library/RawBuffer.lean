import Gamnet.Lib.Reader
import Gamnet.Library.Buffer
import Mathlib.Algebra.Group.Nat.Defs

/-!
# The cursors of a byte buffer

The functions of Buffer on their machine words. The cursors and the size of the array
are size_t values, and every sum and difference is taken modulo 2^64; nothing keeps the
cursors in order but the functions themselves. A memcpy copies the source bytes as they
were before the call, and those inside one array are recorded (`Move`).

The results of this module are that every function does on these words what `Buffer`
does on natural numbers (`Represents`), and which bytes it moves inside the array.
-/

namespace Gamnet

/-- A memcpy between two ranges of one array. -/
structure Move where
  source : Nat
  destination : Nat
  count : Nat
  deriving DecidableEq

/-- The two ranges have no byte in common. -/
def Move.Disjoint (m : Move) : Prop :=
  ∀ i, m.source ≤ i → i < m.source + m.count →
    m.destination ≤ i → ¬ i < m.destination + m.count

/-- The fields of Buffer. -/
structure RawBuffer where
  data : List UInt8
  readCursor : UInt64
  writeCursor : UInt64
  bufSize : UInt64

/-- How a call ends: the buffer it leaves, its copies inside the array, and the exception
that it throws. -/
structure BufferCall where
  buffer : RawBuffer
  moves : List Move
  thrown : Option Exception

namespace RawBuffer

/-- Bytes of an array. -/
def slice (data : List UInt8) (offset count : Nat) : List UInt8 :=
  (data.drop offset).take count

/-- The constructor. -/
def new (size : UInt64) : RawBuffer where
  data := List.replicate size.toNat 0
  readCursor := 0
  writeCursor := 0
  bufSize := size

/-- Size. -/
def size (b : RawBuffer) : UInt64 :=
  b.writeCursor - b.readCursor

/-- Available. -/
def available (b : RawBuffer) : UInt64 :=
  b.bufSize - (b.writeCursor - b.readCursor)

/-- Capacity. -/
def capacity (b : RawBuffer) : UInt64 :=
  b.bufSize

/-- The bytes from ReadPtr() on, Size() of them. -/
def contents (b : RawBuffer) : List UInt8 :=
  slice b.data b.readCursor.toNat b.size.toNat

/-- Clear. -/
def clear (b : RawBuffer) : RawBuffer :=
  { b with
    writeCursor := 0
    readCursor := 0 }

/-- RemoveReadBuffer, with the memcpy that it calls. -/
def removeReadBuffer (b : RawBuffer) : RawBuffer × List Move :=
  if 0 ≥ b.readCursor then (b, [])
  else
    let count := b.writeCursor - b.readCursor
    let moved :=
      if 0 < count then
        Buffer.overwrite b.data 0 (slice b.data b.readCursor.toNat count.toNat)
      else b.data
    let moves := if 0 < count then [⟨b.readCursor.toNat, 0, count.toNat⟩] else []
    ({ b with
       data := moved
       writeCursor := count
       readCursor := 0 }, moves)

/-- Append, from a pointer and a size. -/
def append (b : RawBuffer) (buf : Nat → UInt8) (size : UInt64) : BufferCall :=
  if 0 = size then ⟨b, [], none⟩
  else if b.available < size then
    ⟨b, [], some
      { errorCode := .bufferOverflowError
        detail :=
          "BufferOverflowError not enough space(need:" ++
            toString size.toNat ++ " bytes, left:" ++
            toString b.available.toNat ++ " bytes)" }⟩
  else
    let room := if size > b.bufSize - b.writeCursor then b.removeReadBuffer else (b, [])
    ⟨{ room.1 with
       data := Buffer.overwrite room.1.data room.1.writeCursor.toNat
         (Reader.bytesAt buf 0 size.toNat)
       writeCursor := room.1.writeCursor + size }, room.2, none⟩

/-- Remove. Its argument is a uint16_t. -/
def remove (b : RawBuffer) (size : UInt16) : RawBuffer :=
  let readCursor := b.readCursor + size.toUInt64
  let readCursor := if readCursor > b.writeCursor then b.writeCursor else readCursor
  if readCursor = b.writeCursor then b.clear
  else { b with readCursor := readCursor }

/-- Resize, into an array that could be allocated. -/
def resize (b : RawBuffer) (size : UInt64) : RawBuffer where
  data :=
    let zeros := List.replicate size.toNat 0
    if 0 < b.size then Buffer.overwrite zeros 0 b.contents else zeros
  readCursor := 0
  writeCursor := b.writeCursor - b.readCursor
  bufSize := size

/-- Copy. -/
def copy (b other : RawBuffer) : RawBuffer :=
  let b := b.clear
  let b := if b.available < other.size then b.resize other.size else b
  { b with
    data := Buffer.overwrite b.data 0 other.contents
    writeCursor := b.writeCursor + other.size }

/-- WritePtr. The pointer is an offset in the array, or NULL. -/
def writePtr (b : RawBuffer) : RawBuffer × List Move × Option Nat :=
  let room := b.removeReadBuffer
  (room.1, room.2,
    if room.1.writeCursor ≥ room.1.bufSize then none else some room.1.writeCursor.toNat)

/-- What AsyncRead does: bytes are written to WritePtr(), and the write cursor moves on
over them. -/
def receive (b : RawBuffer) (buf : Nat → UInt8) (count : UInt64) : BufferCall :=
  let room := b.writePtr
  let written :=
    match room.2.2 with
    | none => room.1.data
    | some offset => Buffer.overwrite room.1.data offset (Reader.bytesAt buf 0 count.toNat)
  ⟨{ room.1 with
     data := written
     writeCursor := room.1.writeCursor + count }, room.2.1, none⟩

end RawBuffer

namespace Buffer

/-- Copy bytes behind the write cursor, if there are any. -/
def put (b : Buffer) (bytes : List UInt8)
    (hfits : b.writeCursor + bytes.length ≤ b.data.length) : Buffer :=
  if hne : bytes = [] then b else b.writeBehind bytes hfits hne

theorem put_capacity
    {b : Buffer} {bytes : List UInt8}
    (hfits : b.writeCursor + bytes.length ≤ b.data.length) :
    (b.put bytes hfits).capacity = b.capacity := by
  unfold put
  split_ifs with hne
  · rfl
  · exact writeBehind_capacity hfits hne

theorem put_unread
    {b : Buffer} {bytes : List UInt8}
    (hfits : b.writeCursor + bytes.length ≤ b.data.length) :
    (b.put bytes hfits).unread = b.unread ++ bytes := by
  unfold put
  split_ifs with hne
  · rw [hne, List.append_nil]
  · exact writeBehind_unread hfits hne

theorem put_readCursor
    {b : Buffer} {bytes : List UInt8}
    (hfits : b.writeCursor + bytes.length ≤ b.data.length) :
    (b.put bytes hfits).readCursor = b.readCursor := by
  unfold put
  split_ifs <;> rfl

/-- Copying bytes behind the write cursor is a copy to its offset. -/
theorem put_data
    {b : Buffer} {bytes : List UInt8}
    (hfits : b.writeCursor + bytes.length ≤ b.data.length) :
    (b.put bytes hfits).data = overwrite b.data b.writeCursor bytes := by
  have htake : bytes.take (b.data.length - b.writeCursor) = bytes :=
    List.take_of_length_le (by omega)
  unfold put overwrite
  rw [htake]
  split_ifs with hne
  · simp [hne]
  · rfl

theorem put_writeCursor
    {b : Buffer} {bytes : List UInt8}
    (hfits : b.writeCursor + bytes.length ≤ b.data.length) :
    (b.put bytes hfits).writeCursor = b.writeCursor + bytes.length := by
  unfold put
  split_ifs with hne
  · rw [hne, List.length_nil, Nat.add_zero]
  · rfl

/-- The queued bytes copied to the front of the array. -/
theorem compacted_eq
    (b : Buffer) :
    b.compacted = overwrite b.data 0 b.unread := by
  have htake : b.unread.take (b.data.length - 0) = b.unread := by
    refine List.take_of_length_le ?_
    rw [unread_length]
    exact b.size_le_capacity
  rw [compacted, overwrite, htake, unread_length, List.take_zero, List.nil_append,
    Nat.zero_add]

theorem overwrite_nil
    (data : List UInt8) (offset : Nat) :
    overwrite data offset [] = data := by
  simp [overwrite]

/-- A copy to the front of a zeroed array. -/
theorem overwrite_zeros
    {b : Buffer} {n : Nat}
    (hfits : b.size ≤ n) :
    overwrite (List.replicate n 0) 0 b.unread =
      b.unread ++ List.replicate (n - b.size) 0 := by
  have htake : b.unread.take n = b.unread :=
    List.take_of_length_le (by rw [unread_length]; exact hfits)
  rw [overwrite, List.take_zero, List.nil_append, List.length_replicate, Nat.sub_zero, htake,
    Nat.zero_add, unread_length, List.drop_replicate]

theorem clear_size_le
    (b : Buffer) (n : Nat) :
    b.clear.size ≤ n :=
  Nat.zero_le n

/-- The emptied buffer into which Copy copies. -/
def emptied (b : Buffer) (n : Nat) : Buffer :=
  if b.capacity < n then b.clear.resize n (b.clear_size_le n) else b.clear

theorem emptied_unread
    (b : Buffer) (n : Nat) :
    (b.emptied n).unread = [] := by
  unfold emptied
  split_ifs <;> simp [unread_eq_nil_iff] <;> rfl

theorem emptied_writeCursor
    (b : Buffer) (n : Nat) :
    (b.emptied n).writeCursor = 0 := by
  unfold emptied
  split_ifs <;> rfl

theorem emptied_readCursor
    (b : Buffer) (n : Nat) :
    (b.emptied n).readCursor = 0 := by
  unfold emptied
  split_ifs <;> rfl

theorem resize_capacity
    {b : Buffer} {n : Nat}
    (hfits : b.size ≤ n) :
    (b.resize n hfits).capacity = n := by
  simp only [capacity, resize, List.length_append, unread_length, List.length_replicate]
  omega

theorem emptied_capacity
    (b : Buffer) (n : Nat) :
    (b.emptied n).capacity = max b.capacity n := by
  unfold emptied
  split_ifs with h
  · rw [resize_capacity]
    omega
  · change b.capacity = _
    omega

theorem copy_fits
    (b other : Buffer) :
    (b.emptied other.size).writeCursor + other.unread.length ≤
      (b.emptied other.size).data.length := by
  have hcap : (b.emptied other.size).data.length = max b.capacity other.size :=
    b.emptied_capacity other.size
  rw [emptied_writeCursor, hcap, unread_length]
  omega

/-- Copy. -/
def copy (b other : Buffer) : Buffer :=
  (b.emptied other.size).put other.unread (copy_fits b other)

theorem resize_unread
    {b : Buffer} {n : Nat}
    (hfits : b.size ≤ n) :
    (b.resize n hfits).unread = b.unread := by
  have hsize : (b.resize n hfits).size = b.size := by
    simp [size, resize]
  rw [unread, hsize]
  simp only [resize, List.drop_zero]
  rw [List.take_append_of_le_length (by simp), List.take_of_length_le (by simp)]

end Buffer

/-- new char[size] throws for an array of 2^63 bytes or more. -/
def RawBuffer.Allocatable (size : UInt64) : Prop :=
  size.toNat < 2 ^ 63

/-- The machine words hold the numbers of a buffer, which are far below the limit of
size_t. -/
structure RawBuffer.Represents (raw : RawBuffer) (b : Buffer) : Prop where
  data : raw.data = b.data
  readCursor : raw.readCursor.toNat = b.readCursor
  writeCursor : raw.writeCursor.toNat = b.writeCursor
  bufSize : raw.bufSize.toNat = b.capacity
  small : b.capacity < 2 ^ 63

namespace RawBuffer
namespace Represents

variable {raw : RawBuffer} {b : Buffer}

theorem size_eq
    (h : raw.Represents b) :
    raw.size.toNat = b.size := by
  have hle : raw.readCursor ≤ raw.writeCursor := by
    rw [UInt64.le_iff_toNat_le, h.readCursor, h.writeCursor]
    exact b.read_le_write
  rw [size, UInt64.toNat_sub_of_le _ _ hle, h.readCursor, h.writeCursor]
  rfl

theorem available_eq
    (h : raw.Represents b) :
    raw.available.toNat = b.available := by
  have hsize := h.size_eq
  have hle : raw.size ≤ raw.bufSize := by
    rw [UInt64.le_iff_toNat_le, hsize, h.bufSize]
    exact b.size_le_capacity
  change (raw.bufSize - raw.size).toNat = _
  rw [UInt64.toNat_sub_of_le _ _ hle, hsize, h.bufSize]
  rfl

theorem contents_eq
    (h : raw.Represents b) :
    raw.contents = b.unread := by
  rw [contents, slice, h.data, h.readCursor, h.size_eq]
  rfl

/-- The room behind the write cursor. -/
theorem behind_eq
    (h : raw.Represents b) :
    (raw.bufSize - raw.writeCursor).toNat = b.capacity - b.writeCursor := by
  have hle : raw.writeCursor ≤ raw.bufSize := by
    rw [UInt64.le_iff_toNat_le, h.writeCursor, h.bufSize]
    exact b.write_le_length
  rw [UInt64.toNat_sub_of_le _ _ hle, h.writeCursor, h.bufSize]

/-- Adding to a cursor within the array does not wrap around. -/
theorem add_eq
    (h : raw.Represents b)
    {cursor n : UInt64}
    (hfits : cursor.toNat + n.toNat ≤ b.capacity) :
    (cursor + n).toNat = cursor.toNat + n.toNat := by
  have hsmall := h.small
  rw [UInt64.toNat_add, Nat.mod_eq_of_lt (by omega)]

theorem clear
    (h : raw.Represents b) :
    raw.clear.Represents b.clear where
  data := h.data
  readCursor := rfl
  writeCursor := rfl
  bufSize := h.bufSize
  small := h.small

/-- RemoveReadBuffer moves all queued bytes to the front, if bytes were removed. -/
theorem removeReadBuffer
    (h : raw.Represents b) :
    raw.removeReadBuffer.1.Represents b.removeReadBuffer ∧
      raw.removeReadBuffer.2 =
        if b.readCursor = 0 then [] else [⟨b.readCursor, 0, b.size⟩] := by
  have hsize : (raw.writeCursor - raw.readCursor).toNat = b.size := h.size_eq
  by_cases hread : b.readCursor = 0
  · have hraw : 0 ≥ raw.readCursor := by
      rw [ge_iff_le, UInt64.le_iff_toNat_le, h.readCursor, hread]
      rfl
    simp only [RawBuffer.removeReadBuffer, if_pos hraw, Buffer.removeReadBuffer, if_pos hread]
    exact ⟨h, trivial⟩
  · have hraw : ¬ 0 ≥ raw.readCursor := by
      rw [ge_iff_le, UInt64.le_iff_toNat_le, h.readCursor]
      exact fun hle => hread (Nat.le_zero.mp hle)
    have hpos : 0 < b.size := by
      have hr := b.read_le_write
      have hne : b.readCursor ≠ b.writeCursor := fun heq => hread (b.reset_of_empty heq)
      unfold Buffer.size
      omega
    have hcount : 0 < raw.writeCursor - raw.readCursor := by
      rw [UInt64.lt_iff_toNat_lt, hsize]
      exact hpos
    have hslice : slice raw.data raw.readCursor.toNat
        (raw.writeCursor - raw.readCursor).toNat = b.unread := h.contents_eq
    simp only [RawBuffer.removeReadBuffer, if_neg hraw, if_pos hcount, hslice,
      Buffer.removeReadBuffer, if_neg hread]
    refine ⟨⟨?_, rfl, hsize, ?_, ?_⟩, ?_⟩
    · rw [h.data]
      exact b.compacted_eq.symm
    · rw [h.bufSize]
      exact b.compacted_length.symm
    · exact lt_of_eq_of_lt b.compacted_length h.small
    · rw [h.readCursor, hsize]

/-- Bytes behind the write cursor. -/
theorem put
    (h : raw.Represents b)
    {bytes : List UInt8} {n : UInt64}
    (hn : n.toNat = bytes.length)
    (hfits : b.writeCursor + bytes.length ≤ b.data.length) :
    RawBuffer.Represents
      { raw with
        data := Buffer.overwrite raw.data raw.writeCursor.toNat bytes
        writeCursor := raw.writeCursor + n }
      (b.put bytes hfits) where
  data := by
    rw [Buffer.put_data, h.data, h.writeCursor]
  readCursor := by
    rw [Buffer.put_readCursor, h.readCursor]
  writeCursor := by
    have hsum : raw.writeCursor.toNat + n.toNat ≤ b.capacity := by
      rw [h.writeCursor, hn]
      exact hfits
    rw [Buffer.put_writeCursor, h.add_eq hsum, h.writeCursor, hn]
  bufSize := by
    rw [Buffer.put_capacity, h.bufSize]
  small := by
    rw [Buffer.put_capacity]
    exact h.small

theorem new
    {size : UInt64}
    (halloc : Allocatable size) :
    (RawBuffer.new size).Represents (Buffer.ofData (List.replicate size.toNat 0)) where
  data := rfl
  readCursor := rfl
  writeCursor := rfl
  bufSize := List.length_replicate.symm
  small := lt_of_eq_of_lt List.length_replicate halloc

/-- Remove stops at the write cursor, and an emptied buffer begins at the front. -/
theorem remove
    (h : raw.Represents b)
    (n : UInt16) :
    (raw.remove n).Represents (b.remove n.toNat) := by
  have hsum : (raw.readCursor + n.toUInt64).toNat = b.readCursor + n.toNat := by
    have hsmall := h.small
    have hr := b.read_le_write
    have hw : b.writeCursor ≤ b.capacity := b.write_le_length
    have hn := n.toNat_lt
    rw [UInt64.toNat_add, UInt16.toNat_toUInt64, h.readCursor, Nat.mod_eq_of_lt (by omega)]
  by_cases hlt : b.readCursor + n.toNat < b.writeCursor
  · have hover : ¬ raw.readCursor + n.toUInt64 > raw.writeCursor := by
      rw [gt_iff_lt, UInt64.lt_iff_toNat_lt, hsum, h.writeCursor]
      omega
    have hne : ¬ raw.readCursor + n.toUInt64 = raw.writeCursor := by
      rw [← UInt64.toNat_inj, hsum, h.writeCursor]
      omega
    simp only [RawBuffer.remove, if_neg hover, if_neg hne, Buffer.remove, dif_pos hlt]
    exact ⟨h.data, hsum, h.writeCursor, h.bufSize, h.small⟩
  · have hend : (if raw.readCursor + n.toUInt64 > raw.writeCursor then raw.writeCursor
        else raw.readCursor + n.toUInt64) = raw.writeCursor := by
      split_ifs with hover
      · rfl
      · rw [← UInt64.toNat_inj, hsum, h.writeCursor]
        rw [gt_iff_lt, UInt64.lt_iff_toNat_lt, hsum, h.writeCursor] at hover
        omega
    simp only [RawBuffer.remove, hend, if_true, Buffer.remove, dif_neg hlt]
    exact h.clear

/-- Resize copies the queued bytes to the front of a zeroed array. -/
theorem resize
    (h : raw.Represents b)
    {n : UInt64}
    (halloc : Allocatable n)
    (hfits : b.size ≤ n.toNat) :
    (raw.resize n).Represents (b.resize n.toNat hfits) where
  data := by
    simp only [RawBuffer.resize, Buffer.resize, UInt64.lt_iff_toNat_lt, h.size_eq, h.contents_eq]
    have hzero : (0 : UInt64).toNat = 0 := rfl
    rw [hzero]
    split_ifs with hpos
    · exact Buffer.overwrite_zeros hfits
    · have hsize : b.size = 0 := by omega
      rw [(b.unread_eq_nil_iff).mpr hsize, hsize]
      rfl
  readCursor := rfl
  writeCursor := h.size_eq
  bufSize := (Buffer.resize_capacity hfits).symm
  small := lt_of_eq_of_lt (Buffer.resize_capacity hfits) halloc

/-- Copy empties the buffer, makes room, and copies behind the write cursor. -/
theorem copy
    (h : raw.Represents b)
    {other : RawBuffer} {b' : Buffer}
    (hother : other.Represents b') :
    (raw.copy other).Represents (b.copy b') := by
  have hempty : RawBuffer.Represents
      (if raw.clear.available < other.size then raw.clear.resize other.size else raw.clear)
      (b.emptied b'.size) := by
    have hsize := hother.size_eq
    have hlt : raw.clear.available < other.size ↔ b.capacity < b'.size := by
      rw [UInt64.lt_iff_toNat_lt, h.clear.available_eq, hsize]
      rfl
    have halloc : Allocatable other.size := by
      rw [Allocatable, hsize]
      exact Nat.lt_of_le_of_lt b'.size_le_capacity hother.small
    simp only [hlt, Buffer.emptied, ← hsize]
    split_ifs with hcap
    · exact h.clear.resize halloc (b.clear_size_le _)
    · exact h.clear
  have hlen : other.size.toNat = b'.unread.length := by
    rw [hother.size_eq, Buffer.unread_length]
  have hput := hempty.put hlen (Buffer.copy_fits b b')
  have hzero := hempty.writeCursor
  rw [Buffer.emptied_writeCursor] at hzero
  rw [hzero] at hput
  rw [RawBuffer.copy, hother.contents_eq]
  exact hput

theorem makeRoom
    (h : raw.Represents b)
    (n : UInt64) :
    (if n > raw.bufSize - raw.writeCursor then raw.removeReadBuffer else (raw, [])).1.Represents
      (b.makeRoom n.toNat) := by
  have hgt : n > raw.bufSize - raw.writeCursor ↔ n.toNat > b.capacity - b.writeCursor := by
    rw [gt_iff_lt, UInt64.lt_iff_toNat_lt, h.behind_eq]
  simp only [hgt, Buffer.makeRoom]
  split_ifs
  · exact h.removeReadBuffer.1
  · exact h

/-- Append queues the bytes and throws what the buffer of natural numbers throws. -/
theorem append
    (h : raw.Represents b)
    (buf : Nat → UInt8) (n : UInt64) :
    (∀ e, b.append (Reader.bytesAt buf 0 n.toNat) = .error e →
      raw.append buf n = ⟨raw, [], some e⟩) ∧
    (∀ b', b.append (Reader.bytesAt buf 0 n.toNat) = .ok b' →
      (raw.append buf n).thrown = none ∧ (raw.append buf n).buffer.Represents b') := by
  have hlen : (Reader.bytesAt buf 0 n.toNat).length = n.toNat := Reader.bytesAt_length ..
  have hzero : 0 = n ↔ Reader.bytesAt buf 0 n.toNat = [] := by
    rw [← List.length_eq_zero_iff, hlen, ← UInt64.toNat_inj, eq_comm]
    rfl
  have hlt : raw.available < n ↔ b.available < (Reader.bytesAt buf 0 n.toNat).length := by
    rw [UInt64.lt_iff_toNat_lt, h.available_eq, hlen]
  by_cases hne : Reader.bytesAt buf 0 n.toNat = []
  · simp only [Buffer.append, dif_pos hne, RawBuffer.append, if_pos (hzero.mpr hne)]
    refine ⟨fun e he => (by cases he), fun b' hb' => ?_⟩
    cases hb'
    exact ⟨trivial, h⟩
  · by_cases hroom : b.available < (Reader.bytesAt buf 0 n.toNat).length
    · simp only [Buffer.append, dif_neg hne, dif_pos hroom, RawBuffer.append,
        if_neg (mt hzero.mp hne), if_pos (hlt.mpr hroom)]
      refine ⟨fun e he => ?_, fun b' hb' => (by cases hb')⟩
      cases he
      rw [hlen, h.available_eq]
    · have hfits := b.makeRoom_fits (Nat.le_of_not_lt hroom)
      have hput := (h.makeRoom n).put hlen.symm (by rw [hlen] at hfits ⊢; exact hfits)
      simp only [Buffer.append, dif_neg hne, dif_neg hroom, RawBuffer.append,
        if_neg (mt hzero.mp hne), if_neg (mt hlt.mp hroom)]
      refine ⟨fun e he => (by cases he), fun b' hb' => ?_⟩
      cases hb'
      refine ⟨trivial, ?_⟩
      simpa only [Buffer.put, dif_neg hne, hlen] using hput

end Represents
end RawBuffer
end Gamnet
