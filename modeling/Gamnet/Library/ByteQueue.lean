import Gamnet.Library.RawBuffer
import Mathlib.Algebra.Group.Nat.Defs

/-!
# A buffer is a bounded queue of bytes

`ByteQueue` is what Buffer is for: a queue of bytes with a capacity. Beside the queued
bytes it keeps an account of the array: how many bytes were removed in front of the
queued ones since these began at the front, and at each compaction how many were removed
and how many are queued.

`Reaches` relates the machine words of a buffer to this queue along every sequence of
operations. Behind each of them the array holds the queue (`reaches_queue`), and the
copies inside the array are between disjoint ranges exactly if at every compaction at
least as many bytes were removed as are queued (`moves_disjoint_iff`).
-/

namespace Gamnet

/-- Bytes that were removed in front of the queued ones, and the queued ones, at a
compaction. -/
structure Compaction where
  removed : Nat
  queued : Nat

/-- A bounded queue of bytes, with the account of its array. -/
structure ByteQueue where
  items : List UInt8
  capacity : Nat
  removed : Nat
  compactions : List Compaction

namespace ByteQueue

def empty (capacity : Nat) : ByteQueue where
  items := []
  capacity := capacity
  removed := 0
  compactions := []

/-- Begin at the front of the array again. -/
def compact (q : ByteQueue) : ByteQueue :=
  if q.removed = 0 then q
  else
    { q with
      removed := 0
      compactions := q.compactions ++ [⟨q.removed, q.items.length⟩] }

/-- The bytes fit beside the queued ones. -/
def Fits (q : ByteQueue) (n : Nat) : Prop :=
  n ≤ q.capacity - q.items.length

instance (q : ByteQueue) (n : Nat) : Decidable (q.Fits n) :=
  inferInstanceAs (Decidable (n ≤ q.capacity - q.items.length))

/-- Queue bytes, if they fit. The array is compacted if they do not fit behind the queued
ones. -/
def append (q : ByteQueue) (bytes : List UInt8) : ByteQueue :=
  if bytes = [] ∨ ¬ q.Fits bytes.length then q
  else
    let room := if bytes.length > q.capacity - (q.removed + q.items.length) then q.compact else q
    { room with items := room.items ++ bytes }

/-- Take bytes from the front. -/
def remove (q : ByteQueue) (n : Nat) : ByteQueue :=
  if n < q.items.length then
    { q with
      items := q.items.drop n
      removed := q.removed + n }
  else
    { q with
      items := []
      removed := 0 }

def clear (q : ByteQueue) : ByteQueue :=
  { q with
    items := []
    removed := 0 }

/-- Take over the queued bytes of another queue, with as much room as they need. -/
def copy (q other : ByteQueue) : ByteQueue :=
  { q with
    items := other.items
    capacity := max q.capacity other.items.length
    removed := 0 }

def resize (q : ByteQueue) (n : Nat) : ByteQueue :=
  { q with
    capacity := n
    removed := 0 }

/-- Queue bytes behind a compaction. -/
def receive (q : ByteQueue) (bytes : List UInt8) : ByteQueue :=
  { q.compact with items := q.compact.items ++ bytes }

@[simp] theorem compact_items
    (q : ByteQueue) :
    q.compact.items = q.items := by
  unfold compact
  split_ifs <;> rfl

@[simp] theorem compact_capacity
    (q : ByteQueue) :
    q.compact.capacity = q.capacity := by
  unfold compact
  split_ifs <;> rfl

@[simp] theorem compact_removed
    (q : ByteQueue) :
    q.compact.removed = 0 := by
  unfold compact
  split_ifs with h
  · exact h
  · rfl

@[simp] theorem remove_compactions
    (q : ByteQueue) (n : Nat) :
    (q.remove n).compactions = q.compactions := by
  unfold remove
  split_ifs <;> rfl

end ByteQueue

namespace Buffer

/-- The buffer holds a queue: its queued bytes, its capacity, and the bytes removed in
front of them. -/
structure Accounts (b : Buffer) (q : ByteQueue) : Prop where
  items : b.unread = q.items
  capacity : b.capacity = q.capacity
  removed : b.readCursor = q.removed

namespace Accounts

variable {b other : Buffer} {q q' : ByteQueue}

theorem size_eq
    (h : b.Accounts q) :
    b.size = q.items.length := by
  rw [← h.items, unread_length]

theorem writeCursor_eq
    (h : b.Accounts q) :
    b.writeCursor = q.removed + q.items.length := by
  have hr := b.read_le_write
  rw [← h.removed, ← h.size_eq, size]
  omega

theorem compact
    (h : b.Accounts q) :
    b.removeReadBuffer.Accounts q.compact where
  items := by
    rw [removeReadBuffer_unread, h.items, ByteQueue.compact_items]
  capacity := by
    rw [removeReadBuffer_capacity, h.capacity, ByteQueue.compact_capacity]
  removed := by
    rw [removeReadBuffer_readCursor, ByteQueue.compact_removed]

theorem put
    (h : b.Accounts q)
    {bytes : List UInt8}
    (hfits : b.writeCursor + bytes.length ≤ b.data.length) :
    (b.put bytes hfits).Accounts { q with items := q.items ++ bytes } where
  items := by
    rw [put_unread, h.items]
  capacity := by
    rw [put_capacity, h.capacity]
  removed := by
    rw [put_readCursor, h.removed]

theorem clear
    (h : b.Accounts q) :
    b.clear.Accounts q.clear where
  items := rfl
  capacity := h.capacity
  removed := rfl

theorem remove
    (h : b.Accounts q)
    (n : Nat) :
    (b.remove n).Accounts (q.remove n) := by
  have hr := b.read_le_write
  have hsize := h.size_eq
  unfold size at hsize
  by_cases hn : n < q.items.length
  · have hlt : b.readCursor + n < b.writeCursor := by omega
    refine ⟨?_, ?_, ?_⟩
    · rw [remove_unread, h.items, ByteQueue.remove, if_pos hn]
    · rw [remove_capacity, h.capacity, ByteQueue.remove, if_pos hn]
    · rw [Buffer.remove, dif_pos hlt, ByteQueue.remove, if_pos hn]
      exact congrArg (· + n) h.removed
  · have hlt : ¬ b.readCursor + n < b.writeCursor := by omega
    rw [Buffer.remove, dif_neg hlt, ByteQueue.remove, if_neg hn]
    exact h.clear

theorem resize
    (h : b.Accounts q)
    {n : Nat}
    (hfits : b.size ≤ n) :
    (b.resize n hfits).Accounts (q.resize n) where
  items := (resize_unread hfits).trans h.items
  capacity := resize_capacity hfits
  removed := rfl

theorem copy
    (h : b.Accounts q)
    (hother : other.Accounts q') :
    (b.copy other).Accounts (q.copy q') where
  items := by
    rw [Buffer.copy, put_unread, emptied_unread, List.nil_append, hother.items]
    rfl
  capacity := by
    rw [Buffer.copy, put_capacity, emptied_capacity, h.capacity, hother.size_eq]
    rfl
  removed := by
    rw [Buffer.copy, put_readCursor, emptied_readCursor]
    rfl

end Accounts
end Buffer

/-- The copy that a compaction makes. -/
def Compaction.move (c : Compaction) : Move where
  source := c.removed
  destination := 0
  count := c.queued

/-- The ranges of a compaction are disjoint exactly if at least as many bytes were
removed as are queued. -/
theorem Compaction.move_disjoint_iff
    (c : Compaction) :
    c.move.Disjoint ↔ c.queued ≤ c.removed := by
  simp only [Move.Disjoint, Compaction.move]
  constructor
  · intro h
    by_contra hlt
    exact h c.removed (Nat.le_refl _) (by omega) (Nat.zero_le _) (by omega)
  · intro hle i hsource _ _ hdestination
    omega

namespace RawBuffer

/-- The machine words of a buffer hold a queue. -/
def Holds (raw : RawBuffer) (q : ByteQueue) : Prop :=
  ∃ b : Buffer, raw.Represents b ∧ b.Accounts q

namespace Holds

variable {raw other : RawBuffer} {q q' : ByteQueue}

theorem contents_eq
    (h : raw.Holds q) :
    raw.contents = q.items := by
  obtain ⟨b, hraw, hb⟩ := h
  rw [hraw.contents_eq, hb.items]

theorem capacity_eq
    (h : raw.Holds q) :
    raw.capacity.toNat = q.capacity := by
  obtain ⟨b, hraw, hb⟩ := h
  rw [RawBuffer.capacity, hraw.bufSize, hb.capacity]

theorem available_eq
    (h : raw.Holds q) :
    raw.available.toNat = q.capacity - q.items.length := by
  obtain ⟨b, hraw, hb⟩ := h
  rw [hraw.available_eq, Buffer.available, hb.capacity, hb.size_eq]

theorem cursors
    (h : raw.Holds q) :
    raw.readCursor ≤ raw.writeCursor ∧ raw.writeCursor ≤ raw.bufSize := by
  obtain ⟨b, hraw, -⟩ := h
  rw [UInt64.le_iff_toNat_le, UInt64.le_iff_toNat_le, hraw.readCursor, hraw.writeCursor,
    hraw.bufSize]
  exact ⟨b.read_le_write, b.write_le_length⟩

/-- The room behind the write cursor. -/
theorem behind_eq
    (h : raw.Holds q) :
    (raw.bufSize - raw.writeCursor).toNat = q.capacity - (q.removed + q.items.length) := by
  obtain ⟨b, hraw, hb⟩ := h
  rw [hraw.behind_eq, hb.capacity, hb.writeCursor_eq]

theorem front_le
    (h : raw.Holds q) :
    q.removed + q.items.length ≤ q.capacity := by
  obtain ⟨b, -, hb⟩ := h
  rw [← hb.writeCursor_eq, ← hb.capacity]
  exact b.write_le_length

theorem size_eq
    (h : raw.Holds q) :
    raw.size.toNat = q.items.length := by
  obtain ⟨b, hraw, hb⟩ := h
  rw [hraw.size_eq, hb.size_eq]

theorem new
    {size : UInt64}
    (halloc : Allocatable size) :
    (RawBuffer.new size).Holds (ByteQueue.empty size.toNat) :=
  ⟨_, .new halloc, ⟨rfl, List.length_replicate, rfl⟩⟩

/-- Compacting the array makes the copy that the account of the queue lists. -/
theorem compact
    (h : raw.Holds q) :
    raw.removeReadBuffer.1.Holds q.compact ∧
      q.compact.compactions.map Compaction.move =
        q.compactions.map Compaction.move ++ raw.removeReadBuffer.2 := by
  obtain ⟨b, hraw, hb⟩ := h
  have hmove := hraw.removeReadBuffer
  refine ⟨⟨_, hmove.1, hb.compact⟩, ?_⟩
  rw [hmove.2, hb.removed, hb.size_eq, ByteQueue.compact]
  split_ifs
  · rw [List.append_nil]
  · rw [List.map_append]
    rfl

/-- Bytes written behind the write cursor are queued. -/
theorem put
    (h : raw.Holds q)
    {bytes : List UInt8} {n : UInt64}
    (hn : n.toNat = bytes.length)
    (hfits : q.removed + q.items.length + bytes.length ≤ q.capacity) :
    RawBuffer.Holds
      { raw with
        data := Buffer.overwrite raw.data raw.writeCursor.toNat bytes
        writeCursor := raw.writeCursor + n }
      { q with items := q.items ++ bytes } := by
  obtain ⟨b, hraw, hb⟩ := h
  have hroom : b.writeCursor + bytes.length ≤ b.data.length := by
    rw [hb.writeCursor_eq]
    exact le_of_le_of_eq hfits hb.capacity.symm
  exact ⟨_, hraw.put hn hroom, hb.put hroom⟩

theorem clear
    (h : raw.Holds q) :
    raw.clear.Holds q.clear := by
  obtain ⟨b, hraw, hb⟩ := h
  exact ⟨_, hraw.clear, hb.clear⟩

theorem remove
    (h : raw.Holds q)
    (n : UInt16) :
    (raw.remove n).Holds (q.remove n.toNat) := by
  obtain ⟨b, hraw, hb⟩ := h
  exact ⟨_, hraw.remove n, hb.remove n.toNat⟩

theorem resize
    (h : raw.Holds q)
    {n : UInt64}
    (halloc : Allocatable n)
    (hfits : q.items.length ≤ n.toNat) :
    (raw.resize n).Holds (q.resize n.toNat) := by
  obtain ⟨b, hraw, hb⟩ := h
  have hroom : b.size ≤ n.toNat := by
    rw [hb.size_eq]
    exact hfits
  exact ⟨_, hraw.resize halloc hroom, hb.resize hroom⟩

theorem copy
    (h : raw.Holds q)
    (hother : other.Holds q') :
    (raw.copy other).Holds (q.copy q') := by
  obtain ⟨b, hraw, hb⟩ := h
  obtain ⟨b', hraw', hb'⟩ := hother
  exact ⟨_, hraw.copy hraw', hb.copy hb'⟩

/-- Append compacts the array if need be, queues bytes that fit, and otherwise throws and
changes nothing. -/
theorem append
    (h : raw.Holds q)
    (buf : Nat → UInt8) (n : UInt64) :
    (raw.append buf n).buffer.Holds (q.append (Reader.bytesAt buf 0 n.toNat)) ∧
      (q.append (Reader.bytesAt buf 0 n.toNat)).compactions.map Compaction.move =
        q.compactions.map Compaction.move ++ (raw.append buf n).moves ∧
      ((raw.append buf n).thrown ≠ none ↔ ¬ q.Fits n.toNat) ∧
      (¬ q.Fits n.toNat → (raw.append buf n).buffer = raw) := by
  have hlen : (Reader.bytesAt buf 0 n.toNat).length = n.toNat := Reader.bytesAt_length ..
  have hfits : raw.available < n ↔ ¬ q.Fits n.toNat := by
    rw [UInt64.lt_iff_toNat_lt, h.available_eq, ByteQueue.Fits, Nat.not_le]
  by_cases hzero : 0 = n
  · have hnil : Reader.bytesAt buf 0 n.toNat = [] := by
      rw [← hzero]
      rfl
    have hroom : q.Fits n.toNat := by
      rw [← hzero]
      exact Nat.zero_le _
    simp only [RawBuffer.append, if_pos hzero, ByteQueue.append, hnil, true_or, if_true,
      List.append_nil]
    exact ⟨h, trivial, by simp [hroom], fun hno => absurd hroom hno⟩
  by_cases hroom : q.Fits n.toNat
  · have hne : ¬ (Reader.bytesAt buf 0 n.toNat = [] ∨ ¬ q.Fits n.toNat) := by
      rintro (hnil | hno)
      · rw [← List.length_eq_zero_iff, hlen] at hnil
        exact hzero (UInt64.toNat_inj.mp hnil.symm)
      · exact hno hroom
    have hgt : n > raw.bufSize - raw.writeCursor ↔
        n.toNat > q.capacity - (q.removed + q.items.length) := by
      rw [gt_iff_lt, UInt64.lt_iff_toNat_lt, h.behind_eq]
    have hcursor := h.front_le
    have hnum : n.toNat ≤ q.capacity - q.items.length := hroom
    simp only [RawBuffer.append, if_neg hzero, if_neg (not_not_intro hroom ∘ hfits.mp),
      ByteQueue.append, hlen, if_neg hne, hgt]
    refine ⟨?_, ?_, by simp [hroom], fun hno => absurd hroom hno⟩
    · split_ifs with hbehind
      · exact h.compact.1.put hlen.symm (by simp [hlen]; omega)
      · exact h.put hlen.symm (by rw [hlen]; omega)
    · split_ifs with hbehind
      · exact h.compact.2
      · exact (List.append_nil _).symm
  · simp only [RawBuffer.append, if_neg hzero, if_pos (hfits.mpr hroom), ByteQueue.append, hlen,
      hroom, not_false_eq_true, or_true, if_true, List.append_nil]
    exact ⟨h, trivial, by simp, fun _ => trivial⟩

/-- Receiving is writing behind a compaction. -/
theorem receive
    (h : raw.Holds q)
    (buf : Nat → UInt8) {n : UInt64}
    (hroom : n ≤ raw.available) :
    (raw.receive buf n).buffer.Holds (q.receive (Reader.bytesAt buf 0 n.toNat)) ∧
      (q.receive (Reader.bytesAt buf 0 n.toNat)).compactions.map Compaction.move =
        q.compactions.map Compaction.move ++ (raw.receive buf n).moves := by
  have hlen : (Reader.bytesAt buf 0 n.toNat).length = n.toNat := Reader.bytesAt_length ..
  have hcompact := h.compact.1
  have hbehind := hcompact.behind_eq
  have hcursor := h.front_le
  have hnum : n.toNat ≤ q.capacity - q.items.length := by
    rw [← h.available_eq]
    exact UInt64.le_iff_toNat_le.mp hroom
  refine ⟨?_, h.compact.2⟩
  have hput := hcompact.put hlen.symm (by simp [hlen]; omega)
  simp only [RawBuffer.receive, writePtr]
  split_ifs with hfull
  · -- WritePtr answers NULL only if no byte fits, so that none is written
    have hzero : Reader.bytesAt buf 0 n.toNat = [] := by
      rw [← List.length_eq_zero_iff, hlen]
      rw [ge_iff_le, UInt64.le_iff_toNat_le] at hfull
      have hcap := hcompact.capacity_eq
      have hback := UInt64.toNat_sub_of_le _ _ hcompact.cursors.2
      simp only [ByteQueue.compact_items, ByteQueue.compact_capacity,
        ByteQueue.compact_removed, RawBuffer.capacity] at hbehind hcap
      omega
    rw [hzero, Buffer.overwrite_nil] at hput
    rw [hzero]
    exact hput
  · exact hput

end Holds

/-- The buffers that the public operations lead to from a new one, with the copies
inside the array so far and the queue on which the same operations were made. Bytes are
received behind WritePtr() as far as the buffer has room, and Resize keeps the queued
bytes; whatever else writes outside the array. -/
inductive Reaches : RawBuffer → List Move → ByteQueue → Prop
  | new {size : UInt64} (halloc : Allocatable size) :
      Reaches (new size) [] (ByteQueue.empty size.toNat)
  | append {b : RawBuffer} {moves : List Move} {q : ByteQueue}
      (buf : Nat → UInt8) (size : UInt64)
      (h : Reaches b moves q) :
      Reaches (b.append buf size).buffer (moves ++ (b.append buf size).moves)
        (q.append (Reader.bytesAt buf 0 size.toNat))
  | remove {b : RawBuffer} {moves : List Move} {q : ByteQueue}
      (size : UInt16)
      (h : Reaches b moves q) :
      Reaches (b.remove size) moves (q.remove size.toNat)
  | clear {b : RawBuffer} {moves : List Move} {q : ByteQueue}
      (h : Reaches b moves q) :
      Reaches b.clear moves q.clear
  | copy {b other : RawBuffer} {moves moves' : List Move} {q q' : ByteQueue}
      (h : Reaches b moves q)
      (hother : Reaches other moves' q') :
      Reaches (b.copy other) moves (q.copy q')
  | resize {b : RawBuffer} {moves : List Move} {q : ByteQueue} {size : UInt64}
      (halloc : Allocatable size)
      (hfits : b.size ≤ size)
      (h : Reaches b moves q) :
      Reaches (b.resize size) moves (q.resize size.toNat)
  | receive {b : RawBuffer} {moves : List Move} {q : ByteQueue}
      (buf : Nat → UInt8) {count : UInt64}
      (hroom : count ≤ b.available)
      (h : Reaches b moves q) :
      Reaches (b.receive buf count).buffer (moves ++ (b.receive buf count).moves)
        (q.receive (Reader.bytesAt buf 0 count.toNat))

namespace Reaches

variable {b : RawBuffer} {moves : List Move} {q : ByteQueue}

/-- Every operation keeps the array and its account together. -/
theorem holds
    (h : Reaches b moves q) :
    b.Holds q ∧ q.compactions.map Compaction.move = moves := by
  induction h with
  | new halloc => exact ⟨.new halloc, rfl⟩
  | append buf size _ ih =>
      have happ := ih.1.append buf size
      refine ⟨happ.1, ?_⟩
      rw [happ.2.1, ih.2]
  | remove size _ ih =>
      refine ⟨ih.1.remove size, ?_⟩
      rw [ByteQueue.remove_compactions, ih.2]
  | clear _ ih => exact ⟨ih.1.clear, ih.2⟩
  | copy _ _ ih ihother => exact ⟨ih.1.copy ihother.1, ih.2⟩
  | resize halloc hfits _ ih =>
      refine ⟨ih.1.resize halloc ?_, ih.2⟩
      rw [← ih.1.size_eq]
      exact UInt64.le_iff_toNat_le.mp hfits
  | receive buf hroom _ ih =>
      have hrec := ih.1.receive buf hroom
      refine ⟨hrec.1, ?_⟩
      rw [hrec.2, ih.2]

end Reaches

/-- Eight bytes in a buffer of ten, then one removed, then three more. -/
def shifted : RawBuffer :=
  ((((new 10).append (fun _ => 65) 8).buffer.remove 1).append (fun _ => 66) 3).buffer

/-- The queue on which the same operations were made. -/
def shiftedQueue : ByteQueue :=
  (((ByteQueue.empty 10).append (List.replicate 8 65)).remove 1).append (List.replicate 3 66)

theorem reaches_shifted :
    Reaches shifted [⟨1, 0, 7⟩] shiftedQueue := by
  have halloc : Allocatable 10 := by
    unfold Allocatable
    decide
  exact .append (fun _ => 66) 3 (.remove 1 (.append (fun _ => 65) 8 (.new halloc)))

/-- Behind every sequence of operations the buffer is the queue: its cursors are in
order, its bytes are the queued ones, and it has room for as many as the queue has.
Append throws exactly if its bytes do not fit beside the queued ones, and then changes
nothing. -/
theorem reaches_queue
    {b : RawBuffer} {moves : List Move} {q : ByteQueue}
    (h : Reaches b moves q) :
    b.readCursor ≤ b.writeCursor ∧ b.writeCursor ≤ b.bufSize ∧
      b.contents = q.items ∧
      b.capacity.toNat = q.capacity ∧
      b.available.toNat = q.capacity - q.items.length ∧
      ∀ (buf : Nat → UInt8) (size : UInt64),
        ((b.append buf size).thrown ≠ none ↔
          b.capacity.toNat - q.items.length < size.toNat) ∧
        ((b.append buf size).thrown ≠ none → (b.append buf size).buffer = b) := by
  have hq := h.holds.1
  refine ⟨hq.cursors.1, hq.cursors.2, hq.contents_eq, hq.capacity_eq, hq.available_eq,
    fun buf size => ?_⟩
  obtain ⟨-, -, hthrown, hsame⟩ := hq.append buf size
  refine ⟨?_, fun ht => hsame (hthrown.mp ht)⟩
  rw [hthrown, hq.capacity_eq, ByteQueue.Fits, Nat.not_le]

theorem reaches_queue_shifted :
    shifted.contents = List.replicate 7 65 ++ List.replicate 3 66 ∧
      shifted.available.toNat = 0 ∧
      (shifted.append (fun _ => 67) 1).thrown ≠ none := by
  obtain ⟨-, -, hcontents, -, havailable, happend⟩ := reaches_queue reaches_shifted
  exact ⟨hcontents, havailable, (happend _ 1).1.mpr (by decide)⟩

/-- The copies inside the array are all between disjoint ranges exactly if at every
compaction at least as many bytes were removed as are queued. -/
theorem moves_disjoint_iff
    {b : RawBuffer} {moves : List Move} {q : ByteQueue}
    (h : Reaches b moves q) :
    (∀ m ∈ moves, m.Disjoint) ↔ ∀ c ∈ q.compactions, c.queued ≤ c.removed := by
  rw [← h.holds.2, List.forall_mem_map]
  exact forall₂_congr fun c _ => c.move_disjoint_iff

theorem moves_disjoint_shifted :
    (∀ m ∈ [⟨1, 0, 7⟩], Move.Disjoint m) ↔ ∀ c ∈ shiftedQueue.compactions, c.queued ≤ c.removed :=
  moves_disjoint_iff reaches_shifted

/-- Seven bytes are moved by one. -/
theorem moves_not_disjoint :
    ¬ ∀ (b : RawBuffer) (moves : List Move) (q : ByteQueue),
      Reaches b moves q → ∀ m ∈ moves, m.Disjoint := by
  intro h
  have hmove := h _ _ _ reaches_shifted ⟨1, 0, 7⟩ (List.mem_singleton.mpr rfl)
  exact hmove 1 (by decide) (by decide) (by decide) (by decide)

end RawBuffer
end Gamnet
