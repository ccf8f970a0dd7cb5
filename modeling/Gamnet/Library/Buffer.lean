import Gamnet.Library.Exception
import Mathlib.Data.List.Basic
import Mathlib.Data.List.TakeDrop

/-!
# The byte buffer

Buffer is an array of bytes with a read cursor and a write cursor. The bytes
between the cursors are the queued bytes. The cursor invariants are fields of
the structure: no public operation can leave them, so every size_t subtraction
of the code is exact.

Each operation comes with its effect on the queued bytes (`unread`), on the
capacity and on the read cursor; later modules use these lemmas only.
-/

namespace Gamnet

/-- A byte array with the cursors of its queued bytes. An emptied buffer has
both cursors at the front. -/
structure Buffer where
  data : List UInt8
  readCursor : Nat
  writeCursor : Nat
  read_le_write : readCursor ≤ writeCursor
  write_le_length : writeCursor ≤ data.length
  reset_of_empty : readCursor = writeCursor → readCursor = 0

namespace Buffer

/-- The default capacity of a buffer, Buffer::MAX_SIZE. -/
def maxSize : Nat := 65535

/-- Number of queued bytes. -/
def size (b : Buffer) : Nat :=
  b.writeCursor - b.readCursor

/-- Size of the array, bufSize_. -/
def capacity (b : Buffer) : Nat :=
  b.data.length

/-- Number of bytes that still fit, counting the space in front of the read
cursor. -/
def available (b : Buffer) : Nat :=
  b.capacity - b.size

/-- The bytes at ReadPtr() up to the write cursor. -/
def unread (b : Buffer) : List UInt8 :=
  (b.data.drop b.readCursor).take b.size

/-- A buffer from the pool: its array is left as the previous user wrote it. -/
def ofData (data : List UInt8) : Buffer where
  data := data
  readCursor := 0
  writeCursor := 0
  read_le_write := Nat.le_refl 0
  write_le_length := Nat.zero_le _
  reset_of_empty := fun _ => rfl

/-- Set both cursors to the front. -/
def clear (b : Buffer) : Buffer :=
  ofData b.data

theorem size_le_capacity
    (b : Buffer) :
    b.size ≤ b.capacity := by
  have hw := b.write_le_length
  unfold size capacity
  omega

@[simp] theorem unread_length
    (b : Buffer) :
    b.unread.length = b.size := by
  have hr := b.read_le_write
  have hw := b.write_le_length
  simp only [unread, size, List.length_take, List.length_drop]
  omega

@[simp] theorem ofData_size
    (data : List UInt8) :
    (ofData data).size = 0 := by
  rfl

@[simp] theorem ofData_capacity
    (data : List UInt8) :
    (ofData data).capacity = data.length := by
  rfl

@[simp] theorem ofData_readCursor
    (data : List UInt8) :
    (ofData data).readCursor = 0 := by
  rfl

/-- A buffer without queued bytes has nothing to read. -/
theorem unread_eq_nil_iff
    (b : Buffer) :
    b.unread = [] ↔ b.size = 0 := by
  rw [← List.length_eq_zero_iff, unread_length]

/-- The read cursor of an empty buffer is at the front. -/
theorem readCursor_eq_zero_of_size_eq_zero
    {b : Buffer}
    (hsize : b.size = 0) :
    b.readCursor = 0 := by
  have hr := b.read_le_write
  apply b.reset_of_empty
  unfold size at hsize
  omega

/-- The queued bytes moved to the front of the array; the bytes behind them
stay where they are. -/
def compacted (b : Buffer) : List UInt8 :=
  b.unread ++ b.data.drop b.size

theorem compacted_length
    (b : Buffer) :
    b.compacted.length = b.capacity := by
  have h := b.size_le_capacity
  simp only [compacted, List.length_append, unread_length, List.length_drop]
  unfold capacity at h ⊢
  omega

/-- RemoveReadBuffer: move the queued bytes to the front. -/
def removeReadBuffer (b : Buffer) : Buffer :=
  if b.readCursor = 0 then b
  else
    { data := b.compacted
      readCursor := 0
      writeCursor := b.size
      read_le_write := Nat.zero_le _
      write_le_length := by
        rw [compacted_length]
        exact b.size_le_capacity
      reset_of_empty := fun _ => rfl }

@[simp] theorem removeReadBuffer_readCursor
    (b : Buffer) :
    b.removeReadBuffer.readCursor = 0 := by
  unfold removeReadBuffer
  split_ifs with h
  · exact h
  · rfl

@[simp] theorem removeReadBuffer_writeCursor
    (b : Buffer) :
    b.removeReadBuffer.writeCursor = b.size := by
  unfold removeReadBuffer
  split_ifs with h
  · simp [size, h]
  · rfl

@[simp] theorem removeReadBuffer_size
    (b : Buffer) :
    b.removeReadBuffer.size = b.size := by
  simp [size]

@[simp] theorem removeReadBuffer_capacity
    (b : Buffer) :
    b.removeReadBuffer.capacity = b.capacity := by
  unfold removeReadBuffer
  split_ifs
  · rfl
  · exact b.compacted_length

@[simp] theorem removeReadBuffer_unread
    (b : Buffer) :
    b.removeReadBuffer.unread = b.unread := by
  by_cases h : b.readCursor = 0
  · simp [removeReadBuffer, h]
  · simp only [unread, removeReadBuffer_readCursor, removeReadBuffer_size,
      List.drop_zero]
    simp only [removeReadBuffer, h, if_false, compacted]
    rw [List.take_append_of_le_length (by simp)]
    rw [List.take_of_length_le (by simp)]
    rfl

/-- The buffer into which Append copies: it is compacted when the new bytes do
not fit behind the write cursor. -/
def makeRoom (b : Buffer) (n : Nat) : Buffer :=
  if n > b.capacity - b.writeCursor then b.removeReadBuffer else b

@[simp] theorem makeRoom_unread
    (b : Buffer)
    (n : Nat) :
    (b.makeRoom n).unread = b.unread := by
  unfold makeRoom
  split_ifs <;> simp

@[simp] theorem makeRoom_capacity
    (b : Buffer)
    (n : Nat) :
    (b.makeRoom n).capacity = b.capacity := by
  unfold makeRoom
  split_ifs <;> simp

/-- Bytes that are available fit behind the write cursor after compaction. -/
theorem makeRoom_fits
    (b : Buffer)
    {n : Nat}
    (hn : n ≤ b.available) :
    (b.makeRoom n).writeCursor + n ≤ (b.makeRoom n).data.length := by
  have hcap : (b.makeRoom n).data.length = b.capacity := b.makeRoom_capacity n
  have hsize := b.size_le_capacity
  have hw : b.writeCursor ≤ b.capacity := b.write_le_length
  rw [hcap]
  unfold available at hn
  unfold makeRoom
  split_ifs
  · rw [removeReadBuffer_writeCursor]
    omega
  · omega

/-- Copy bytes behind the write cursor. -/
def writeBehind
    (b : Buffer)
    (bytes : List UInt8)
    (hfits : b.writeCursor + bytes.length ≤ b.data.length)
    (hne : bytes ≠ []) : Buffer where
  data :=
    b.data.take b.writeCursor ++ bytes ++
      b.data.drop (b.writeCursor + bytes.length)
  readCursor := b.readCursor
  writeCursor := b.writeCursor + bytes.length
  read_le_write := by
    have h := b.read_le_write
    omega
  write_le_length := by
    simp only [List.length_append, List.length_take, List.length_drop]
    omega
  reset_of_empty := by
    intro h
    have hr := b.read_le_write
    have hpos := List.length_pos_of_ne_nil hne
    omega

theorem writeBehind_capacity
    {b : Buffer} {bytes : List UInt8}
    (hfits : b.writeCursor + bytes.length ≤ b.data.length)
    (hne : bytes ≠ []) :
    (b.writeBehind bytes hfits hne).capacity = b.capacity := by
  simp only [capacity, writeBehind, List.length_append, List.length_take,
    List.length_drop]
  omega

theorem writeBehind_unread
    {b : Buffer} {bytes : List UInt8}
    (hfits : b.writeCursor + bytes.length ≤ b.data.length)
    (hne : bytes ≠ []) :
    (b.writeBehind bytes hfits hne).unread = b.unread ++ bytes := by
  have hr := b.read_le_write
  have hw := b.write_le_length
  have htake : (b.data.take b.writeCursor).length = b.writeCursor := by
    rw [List.length_take]
    omega
  have hsize :
      (b.writeBehind bytes hfits hne).size = b.size + bytes.length := by
    simp only [size, writeBehind]
    omega
  have hunread :
      (b.data.take b.writeCursor).drop b.readCursor = b.unread := by
    rw [List.drop_take]
    rfl
  have hlen : (b.unread ++ bytes).length = b.size + bytes.length := by
    simp
  unfold unread
  rw [hsize]
  simp only [writeBehind]
  rw [List.append_assoc, List.drop_append_of_le_length (by omega), hunread,
    ← List.append_assoc, List.take_append_of_le_length (by omega),
    List.take_of_length_le (by omega)]
  rfl

/-- Append: queue bytes, or throw when they do not fit. -/
def append (b : Buffer) (bytes : List UInt8) : Except Exception Buffer :=
  if hne : bytes = [] then .ok b
  else if hroom : b.available < bytes.length then
    .error
      { errorCode := .bufferOverflowError
        detail :=
          "BufferOverflowError not enough space(need:" ++
            toString bytes.length ++ " bytes, left:" ++
            toString b.available ++ " bytes)" }
  else
    .ok ((b.makeRoom bytes.length).writeBehind bytes
      (b.makeRoom_fits (Nat.le_of_not_lt hroom)) hne)

/-- Remove: drop bytes from the front of the queue. -/
def remove (b : Buffer) (n : Nat) : Buffer :=
  if h : b.readCursor + n < b.writeCursor then
    { data := b.data
      readCursor := b.readCursor + n
      writeCursor := b.writeCursor
      read_le_write := Nat.le_of_lt h
      write_le_length := b.write_le_length
      reset_of_empty := by
        intro heq
        omega }
  else b.clear

/-- Append throws exactly when the bytes do not fit. -/
theorem append_error_iff
    (b : Buffer)
    (bytes : List UInt8) :
    (∃ e, b.append bytes = .error e) ↔
      b.capacity < b.size + bytes.length := by
  have hsize := b.size_le_capacity
  unfold append
  split_ifs with hne hroom
  · subst hne
    simp
    omega
  · unfold available at hroom
    simp
    omega
  · unfold available at hroom
    simp
    omega

/-- Append queues its argument behind the bytes that are already queued. -/
theorem append_spec
    {b : Buffer} {bytes : List UInt8}
    (hfits : b.size + bytes.length ≤ b.capacity) :
    ∃ b', b.append bytes = .ok b' ∧
      b'.unread = b.unread ++ bytes ∧
      b'.capacity = b.capacity := by
  unfold append
  split_ifs with hne hroom
  · exact ⟨b, rfl, by simp [hne], rfl⟩
  · unfold available at hroom
    omega
  · refine ⟨_, rfl, ?_, ?_⟩
    · rw [writeBehind_unread, makeRoom_unread]
    · rw [writeBehind_capacity, makeRoom_capacity]

/-- Append leaves the read cursor of an uncompacted buffer alone, and
compaction moves it to the front. -/
theorem append_readCursor
    {b b' : Buffer} {bytes : List UInt8}
    (hread : b.readCursor = 0)
    (happ : b.append bytes = .ok b') :
    b'.readCursor = 0 := by
  unfold append at happ
  split_ifs at happ with hne hroom
  · cases happ
    exact hread
  · cases happ
    simp only [writeBehind, makeRoom]
    split_ifs
    · exact b.removeReadBuffer_readCursor
    · exact hread

@[simp] theorem remove_capacity
    (b : Buffer)
    (n : Nat) :
    (b.remove n).capacity = b.capacity := by
  unfold remove
  split_ifs <;> rfl

@[simp] theorem remove_size
    (b : Buffer)
    (n : Nat) :
    (b.remove n).size = b.size - n := by
  have hr := b.read_le_write
  unfold remove
  split_ifs with h
  · simp only [size]
    omega
  · change 0 = b.size - n
    unfold size
    omega

@[simp] theorem remove_unread
    (b : Buffer)
    (n : Nat) :
    (b.remove n).unread = b.unread.drop n := by
  have hr := b.read_le_write
  unfold remove
  split_ifs with h
  · simp only [unread, size, List.drop_take, List.drop_drop]
    congr 1
    omega
  · have hnil : b.unread.drop n = [] := by
      rw [List.drop_eq_nil_iff, unread_length]
      unfold size
      omega
    rw [hnil, unread_eq_nil_iff]
    rfl

/-- Resize: the queued bytes move to the front of a zeroed array. -/
def resize (b : Buffer) (n : Nat) (_hfits : b.size ≤ n) : Buffer where
  data := b.unread ++ List.replicate (n - b.size) 0
  readCursor := 0
  writeCursor := b.size
  read_le_write := Nat.zero_le _
  write_le_length := by
    simp
  reset_of_empty := fun _ => rfl

/-- An array after a copy to an offset. Bytes behind the end of the array are
not bytes of the array. -/
def overwrite (data : List UInt8) (offset : Nat) (bytes : List UInt8) :
    List UInt8 :=
  data.take offset ++ bytes.take (data.length - offset) ++
    data.drop (offset + bytes.length)

@[simp] theorem overwrite_length
    (data : List UInt8)
    (offset : Nat)
    (bytes : List UInt8) :
    (overwrite data offset bytes).length = data.length := by
  simp only [overwrite, List.length_append, List.length_take, List.length_drop]
  omega

/-- Two copies, one behind the other, copy the bytes together. -/
theorem overwrite_overwrite
    {data front back : List UInt8}
    (hfits : front.length + back.length ≤ data.length) :
    overwrite (overwrite data 0 front) front.length back =
      overwrite data 0 (front ++ back) := by
  have hfront : overwrite data 0 front = front ++ data.drop front.length := by
    simp only [overwrite, List.take_zero, List.nil_append, Nat.sub_zero, Nat.zero_add]
    rw [List.take_of_length_le (by omega)]
  have hboth : overwrite data 0 (front ++ back) =
      front ++ back ++ data.drop (front.length + back.length) := by
    simp only [overwrite, List.take_zero, List.nil_append, Nat.sub_zero, Nat.zero_add,
      List.length_append]
    rw [List.take_of_length_le (by rw [List.length_append]; omega)]
  rw [hfront, hboth, overwrite, List.take_left, ← List.drop_drop, List.drop_left,
    List.drop_drop, List.take_of_length_le]
  rw [List.length_append, List.length_drop]
  omega

/-- The front of an array after a copy to it. -/
theorem take_overwrite
    {data bytes : List UInt8}
    (hfits : bytes.length ≤ data.length) :
    (overwrite data 0 bytes).take bytes.length = bytes := by
  simp only [overwrite, List.take_zero, List.nil_append, Nat.sub_zero]
  rw [List.take_of_length_le hfits, List.take_left]

/-- While the read cursor is at the front, the array starts with the queued
bytes. -/
theorem data_eq_unread_append
    {b : Buffer}
    (hread : b.readCursor = 0) :
    b.data = b.unread ++ b.data.drop b.size := by
  simp only [unread, hread, List.drop_zero]
  exact (List.take_append_drop b.size b.data).symm

end Buffer
end Gamnet
