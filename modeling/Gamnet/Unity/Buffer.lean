import Gamnet.Lib.LittleEndian
import Gamnet.Library.Buffer

/-!
# The byte buffer of the client

The Unity client has a Buffer of its own: an array of a fixed size with two
indices. It is never compacted in place. A sum of two buffers is a new buffer
that holds the unread bytes of both at its front, and a copy behind the end of
an array throws.
-/

namespace Gamnet
namespace Unity

/-- Buffer.BUFFER_SIZE. -/
def bufferSize : Nat := 8192

/-- The message of the exception that BlockCopy throws. -/
def invalidOffLen : String :=
  "Offset and length were out of bounds for the array or count is greater than the number " ++
    "of elements from index to the end of the source collection."

/-- An array of BUFFER_SIZE bytes with the indices of its unread bytes. -/
structure Buffer where
  data : List UInt8
  readIndex : Nat
  writeIndex : Nat
  data_length : data.length = bufferSize
  read_le_write : readIndex ≤ writeIndex
  write_le_size : writeIndex ≤ bufferSize

namespace Buffer

/-- Size. -/
def size (b : Buffer) : Nat :=
  b.writeIndex - b.readIndex

/-- The bytes between the two indices. -/
def unread (b : Buffer) : List UInt8 :=
  (b.data.drop b.readIndex).take b.size

/-- Both indices of a new Buffer are at the front. -/
theorem front_le_front :
    (0 : Nat) ≤ 0 :=
  Nat.le_refl 0

/-- A new Buffer. -/
def empty : Buffer where
  data := List.replicate bufferSize 0
  readIndex := 0
  writeIndex := 0
  data_length := List.length_replicate
  read_le_write := front_le_front
  write_le_size := Nat.zero_le _

/-- Append. BlockCopy throws if the bytes do not fit behind the write index. -/
def append (b : Buffer) (bytes : List UInt8) : Except String Buffer :=
  if bytes = [] then .ok b
  else if h : b.writeIndex + bytes.length ≤ bufferSize then
    .ok
      { data := Gamnet.Buffer.overwrite b.data b.writeIndex bytes
        readIndex := b.readIndex
        writeIndex := b.writeIndex + bytes.length
        data_length := by
          rw [Gamnet.Buffer.overwrite_length, b.data_length]
        read_le_write := by
          have hle := b.read_le_write
          omega
        write_le_size := h }
  else .error invalidOffLen

/-- Copy of the unread bytes of a buffer into a new one, Buffer(Buffer). -/
def copy (src : Buffer) : Except String Buffer :=
  empty.append src.unread

/-- The operator +. -/
def add (lhs rhs : Buffer) : Except String Buffer :=
  match lhs.copy with
  | .error e => .error e
  | .ok buffer => buffer.append rhs.unread

/-- Move the read index over unread bytes. -/
def skip (b : Buffer) (n : Nat) (hn : n ≤ b.size) : Buffer where
  data := b.data
  readIndex := b.readIndex + n
  writeIndex := b.writeIndex
  data_length := b.data_length
  read_le_write := by
    have hle := b.read_le_write
    unfold size at hn
    omega
  write_le_size := b.write_le_size

theorem size_le
    (b : Buffer) :
    b.size ≤ bufferSize := by
  have h := b.write_le_size
  unfold size
  omega

@[simp] theorem unread_length
    (b : Buffer) :
    b.unread.length = b.size := by
  have hread := b.read_le_write
  have hwrite := b.write_le_size
  simp only [unread, size, List.length_take, List.length_drop, b.data_length]
  omega

@[simp] theorem empty_unread :
    empty.unread = [] := by
  rfl

/-- A buffer without unread bytes. -/
theorem unread_eq_nil_iff
    (b : Buffer) :
    b.unread = [] ↔ b.size = 0 := by
  rw [← List.length_eq_zero_iff, unread_length]

/-- The bytes in front of the write index, of which the first ones are read. -/
theorem take_writeIndex
    (b : Buffer) :
    b.data.take b.writeIndex = b.data.take b.readIndex ++ b.unread := by
  have hsum : b.writeIndex = b.readIndex + b.size := by
    have hle := b.read_le_write
    unfold size
    omega
  rw [hsum, List.take_add]
  rfl

/-- Bytes that fit are queued behind the unread ones. -/
theorem append_spec
    {b : Buffer} {bytes : List UInt8}
    (hfits : b.writeIndex + bytes.length ≤ bufferSize) :
    ∃ b', b.append bytes = .ok b' ∧
      b'.unread = b.unread ++ bytes ∧
      b'.readIndex = b.readIndex ∧
      b'.data.take b'.writeIndex = b.data.take b.writeIndex ++ bytes := by
  unfold append
  split_ifs with hnil
  · exact ⟨b, rfl, by simp [hnil], rfl, by simp [hnil]⟩
  · refine ⟨_, rfl, ?_, rfl, ?_⟩
    all_goals
      have hdata := b.data_length
      have hread := b.read_le_write
      have hwrite : (b.data.take b.writeIndex).length = b.writeIndex := by
        rw [List.length_take, hdata]
        omega
      have hcopied : (Gamnet.Buffer.overwrite b.data b.writeIndex bytes).take
          (b.writeIndex + bytes.length) = b.data.take b.writeIndex ++ bytes := by
        unfold Gamnet.Buffer.overwrite
        rw [List.take_of_length_le (l := bytes) (by omega), List.take_left'
          (by rw [List.length_append, hwrite])]
    · have hsize : b.writeIndex + bytes.length - b.readIndex =
          b.size + bytes.length := by
        unfold size
        omega
      simp only [unread, size]
      rw [← List.drop_take, hcopied, List.drop_append_of_le_length (by omega),
        take_writeIndex, List.drop_left' (by rw [List.length_take, hdata]; omega)]
      rfl
    · exact hcopied

/-- Bytes that do not fit are not queued. -/
theorem append_of_not_fits
    {b : Buffer} {bytes : List UInt8}
    (hlong : bufferSize < b.writeIndex + bytes.length) :
    b.append bytes = .error invalidOffLen := by
  have hne : bytes ≠ [] := by
    rintro rfl
    have hle := b.write_le_size
    simp only [List.length_nil] at hlong
    omega
  rw [append, if_neg hne, dif_neg (by omega)]

/-- The unread bytes of a buffer always fit into a new one. -/
theorem copy_spec
    (src : Buffer) :
    ∃ b, src.copy = .ok b ∧ b.unread = src.unread ∧ b.writeIndex = src.size := by
  have hle := src.size_le
  obtain ⟨b, happend, hunread, hread, _⟩ := @append_spec empty src.unread (by
    simp only [empty, unread_length]
    omega)
  refine ⟨b, happend, by simpa using hunread, ?_⟩
  have hsize := congrArg List.length hunread
  rw [empty_unread, List.nil_append, unread_length, unread_length] at hsize
  have hzero : b.readIndex = 0 := hread
  have hsum : b.size = b.writeIndex - b.readIndex := rfl
  omega

/-- The unread bytes of two buffers, if there are not too many. -/
theorem add_spec
    {lhs rhs : Buffer}
    (hfits : lhs.size + rhs.size ≤ bufferSize) :
    ∃ b, lhs.add rhs = .ok b ∧ b.unread = lhs.unread ++ rhs.unread := by
  obtain ⟨b, hcopy, hunread, hwrite⟩ := lhs.copy_spec
  obtain ⟨b', happend, hunread', _⟩ := @append_spec b rhs.unread (by
    rw [hwrite, unread_length]
    exact hfits)
  exact ⟨b', by simp only [add, hcopy, happend], by rw [hunread', hunread]⟩

@[simp] theorem skip_unread
    (b : Buffer)
    (n : Nat)
    (hn : n ≤ b.size) :
    (b.skip n hn).unread = b.unread.drop n := by
  simp only [unread, size, skip, List.drop_take, List.drop_drop]
  congr 1
  omega

/-- A word of the array at an offset of the unread bytes. -/
theorem wordAt_data
    {b : Buffer} {offset w : Nat}
    (hlen : offset + w ≤ b.size) :
    LittleEndian.wordAt (b.readIndex + offset) w b.data =
      LittleEndian.wordAt offset w b.unread := by
  unfold LittleEndian.wordAt unread
  rw [List.drop_take, List.drop_drop, List.take_take, Nat.min_eq_left (by omega)]

end Buffer

end Unity
end Gamnet
