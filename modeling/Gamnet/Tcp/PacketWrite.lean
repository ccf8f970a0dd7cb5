import Gamnet.Idlc.FieldNames
import Gamnet.Idlc.Size
import Gamnet.Tcp.Packet

/-!
# Writing a packet

Packet::Write puts a header and a body into a packet of the pool. The total
length is cut to 16 bits before it is compared with the capacity, and the body
is copied as a whole: a body that is too long by a multiple of 2^16 is written
behind the end of the array.
-/

namespace Gamnet
namespace Tcp

open LittleEndian

/-- A message, as Write sees it: its MSG_ID, what Size returns, the bytes that
Store writes and what Store returns. -/
structure Msg where
  msgId : Nat
  size : Nat
  body : List UInt8
  stored : Bool

/-- A value of a type of an IDL file, with the generated Size and Store. -/
def Msg.ofValue
    (order : {declared : List String} → Idlc.VarType declared → Idlc.Compare)
    {declared : List String}
    (env : Idlc.Environment declared)
    (name : String)
    (known : name ∈ declared)
    (msgId : Nat)
    (v : Idlc.Value) : Option Msg := do
  let size ← env.sizes name known v
  let body ← (env.serializer order name known).store v
  some { msgId := msgId, size := size, body := body, stored := true }

/-- The same with the names of the fields, which Store may hide. -/
def Msg.ofFile
    (order : {declared : List String} → Idlc.VarType declared → Idlc.Compare)
    {declared : List String}
    (file : Idlc.IdlFile declared)
    (name : String)
    (known : name ∈ declared)
    (msgId : Nat)
    (v : Idlc.Value) : Option Msg := do
  let size ← file.layout.sizes name known v
  let body ← (file.serializer order name known).store v
  some { msgId := msgId, size := size, body := body, stored := true }

/-- Packet::Header. -/
structure Header where
  length : Nat
  msgId : Nat
  msgSeq : Nat

/-- What a call of Write returns, the packet it leaves, and the ranges of bytes
it writes, as a first index and a number. -/
structure Written where
  ok : Bool
  packet : Packet
  ranges : List (Nat × Nat)

namespace Packet

/-- The total length in a uint16_t. The sum in a size_t has the same low bits. -/
def totalLength (size : Nat) : Nat :=
  (size + headerSize) % 2 ^ 16

/-- The buffer that is written: it is resized if the 16 low bits of Available()
are less than the total length. -/
def room (p : Packet) (total : Nat) : Buffer :=
  if p.clear.available % 2 ^ 16 < total then
    p.clear.toBuffer.resize total (Nat.zero_le _)
  else
    p.clear.toBuffer

/-- The header fields and the body, each copied to its offset. -/
def fill
    (data : List UInt8)
    (total msgSeq msgId : Nat)
    (body : List UInt8) : List UInt8 :=
  let data := Buffer.overwrite data 0 (encode 2 total)
  let data := Buffer.overwrite data 2 (encode 4 msgSeq)
  let data := Buffer.overwrite data 6 (encode 4 msgId)
  Buffer.overwrite data headerSize body

theorem clear_available
    (p : Packet) :
    p.clear.available = Buffer.maxSize := by
  have h : p.clear.available = p.capacity := by
    rfl
  rw [h, p.capacity_eq]

/-- A packet is never resized: its capacity has 16 bits. -/
theorem room_eq
    {p : Packet}
    {total : Nat}
    (htotal : total < p.capacity) :
    p.room total = p.clear.toBuffer := by
  rw [p.capacity_eq] at htotal
  have hroom : ¬ p.clear.available % 2 ^ 16 < total := by
    rw [clear_available]
    unfold Buffer.maxSize at htotal ⊢
    omega
  rw [room, if_neg hroom]

@[simp] theorem fill_length
    (data : List UInt8)
    (total msgSeq msgId : Nat)
    (body : List UInt8) :
    (fill data total msgSeq msgId body).length = data.length := by
  simp [fill]

theorem room_length
    {p : Packet}
    {total : Nat}
    (htotal : total < p.capacity) :
    (p.room total).data.length = Buffer.maxSize := by
  rw [room_eq htotal]
  exact p.capacity_eq

/-- The packet with an array and a number of queued bytes at its front. -/
def ofArray
    (data : List UInt8)
    (n : Nat)
    (hdata : data.length = Buffer.maxSize)
    (hn : n ≤ data.length) : Packet where
  data := data
  readCursor := 0
  writeCursor := n
  read_le_write := Nat.zero_le _
  write_le_length := hn
  reset_of_empty := fun _ => rfl
  capacity_eq := hdata

theorem fill_room_length
    {p : Packet}
    {total : Nat}
    (htotal : total < p.capacity)
    (msgSeq msgId : Nat)
    (body : List UInt8) :
    (fill (p.room total).data total msgSeq msgId body).length = Buffer.maxSize := by
  rw [fill_length, room_length htotal]

theorem writeCursor_le
    {p : Packet}
    {total : Nat}
    (htotal : total < p.capacity)
    (msgSeq msgId : Nat)
    (body : List UInt8)
    (stored : Bool) :
    (if stored then total else 0) ≤
      (fill (p.room total).data total msgSeq msgId body).length := by
  rw [fill_room_length htotal, ← p.capacity_eq]
  split_ifs
  · exact Nat.le_of_lt htotal
  · exact Nat.zero_le _

/-- The body of both Write functions, with the size of the message, the bytes
that are stored behind the header, and whether Store returned true. -/
def writeBody
    (p : Packet)
    (msgSeq msgId size : Nat)
    (body : List UInt8)
    (stored : Bool) : Written :=
  if htotal : totalLength size < p.capacity then
    { ok := stored
      packet :=
        ofArray (fill (p.room (totalLength size)).data (totalLength size) msgSeq msgId body)
          (if stored then totalLength size else 0)
          (fill_room_length htotal msgSeq msgId body)
          (writeCursor_le htotal msgSeq msgId body stored)
      ranges := [(0, 2), (2, 4), (6, 4), (headerSize, body.length)] }
  else
    { ok := false, packet := p.clear, ranges := [] }

/-- Write of a message. -/
def write (p : Packet) (msgSeq : Nat) (msg : Msg) : Written :=
  p.writeBody msgSeq msg.msgId msg.size msg.body msg.stored

/-- Write of a header and a byte string. -/
def writeBytes (p : Packet) (header : Header) (buf : List UInt8) : Written :=
  p.writeBody header.msgSeq header.msgId buf.length buf true

end Packet

/-- Session::Send of a text: what Write returns is not looked at. -/
def Session.sendText
    (p : Packet)
    (msgSeq msgId : Nat)
    (str : List UInt8) : Packet :=
  (p.writeBytes
    { length := Packet.totalLength (str.length + 1), msgId := msgId, msgSeq := msgSeq }
    (str ++ [0])).packet

section AllOrNothing

/-- A call of Write that writes no byte behind the array, and that leaves the
header and the whole body in the packet if it returns true. -/
structure AllOrNothing
    (r : Written)
    (msgSeq msgId : Nat)
    (body : List UInt8) : Prop where
  inside : ∀ range ∈ r.ranges, ∀ i,
    range.1 ≤ i → i < range.1 + range.2 → i < r.packet.capacity
  complete : r.ok = true →
    r.packet.unread = written msgSeq msgId body ∧
      r.packet.getLength = headerSize + body.length

/-- The total length has 16 bits, or its low 16 bits are all set. -/
def Fits (len : Nat) : Prop :=
  len + headerSize < 2 ^ 16 ∨ (len + headerSize) % 2 ^ 16 = 2 ^ 16 - 1

/-- The header and the body fill the front of the array. -/
theorem fill_eq
    {data : List UInt8}
    {total msgSeq msgId : Nat}
    {body : List UInt8}
    (hfits : headerSize + body.length ≤ data.length) :
    Packet.fill data total msgSeq msgId body =
      Buffer.overwrite data 0
        (encode 2 total ++ encode 4 msgSeq ++ encode 4 msgId ++ body) := by
  unfold headerSize at hfits
  have hseq : Buffer.overwrite (Buffer.overwrite data 0 (encode 2 total)) 2 (encode 4 msgSeq) =
      Buffer.overwrite data 0 (encode 2 total ++ encode 4 msgSeq) := by
    have h := @Buffer.overwrite_overwrite data (encode 2 total) (encode 4 msgSeq)
      (by simp; omega)
    simpa using h
  have hid : Buffer.overwrite
      (Buffer.overwrite data 0 (encode 2 total ++ encode 4 msgSeq)) 6 (encode 4 msgId) =
        Buffer.overwrite data 0 (encode 2 total ++ encode 4 msgSeq ++ encode 4 msgId) := by
    have h := @Buffer.overwrite_overwrite data (encode 2 total ++ encode 4 msgSeq)
      (encode 4 msgId) (by simp; omega)
    simpa using h
  have hbody := @Buffer.overwrite_overwrite data
    (encode 2 total ++ encode 4 msgSeq ++ encode 4 msgId) body (by simp; omega)
  simp only [List.length_append, encode_length] at hbody
  simp only [Packet.fill, hseq, hid]
  exact hbody

variable {p : Packet} {msgSeq msgId size : Nat} {body : List UInt8}

theorem totalLength_of_lt
    (hlen : body.length + headerSize < 2 ^ 16)
    (hsize : Packet.totalLength size = Packet.totalLength body.length) :
    Packet.totalLength size = headerSize + body.length := by
  rw [hsize]
  unfold Packet.totalLength
  omega

/-- A body that is shorter than the array by more than the header is written
as a whole. -/
theorem writeBody_of_lt
    (hlen : headerSize + body.length < Buffer.maxSize)
    (hsize : Packet.totalLength size = Packet.totalLength body.length)
    (stored : Bool) :
    (p.writeBody msgSeq msgId size body stored).ok = stored ∧
      (stored = true →
        (p.writeBody msgSeq msgId size body stored).packet.readCursor = 0 ∧
        (p.writeBody msgSeq msgId size body stored).packet.unread =
          written msgSeq msgId body) := by
  have htotal := totalLength_of_lt (by unfold Buffer.maxSize at hlen; omega) hsize
  have hcap : Packet.totalLength size < p.capacity := by
    rw [htotal, p.capacity_eq]
    exact hlen
  have hroom := Packet.room_length hcap
  simp only [Packet.writeBody, dif_pos hcap]
  refine ⟨trivial, ?_⟩
  rintro rfl
  refine ⟨rfl, ?_⟩
  have hunread : (Packet.ofArray
      (Packet.fill (p.room (Packet.totalLength size)).data (Packet.totalLength size)
        msgSeq msgId body)
      (Packet.totalLength size) (Packet.fill_room_length hcap msgSeq msgId body)
      (Packet.writeCursor_le hcap msgSeq msgId body true)).unread =
        (Packet.fill (p.room (Packet.totalLength size)).data (Packet.totalLength size)
          msgSeq msgId body).take (Packet.totalLength size) := by
    rfl
  refine hunread.trans ?_
  rw [fill_eq (by omega), htotal]
  have hlength : headerSize + body.length =
      (encode 2 (headerSize + body.length) ++ encode 4 msgSeq ++ encode 4 msgId ++
        body).length := by
    simp [headerSize]
    omega
  have htake := @Buffer.take_overwrite (p.room (headerSize + body.length)).data
    (encode 2 (headerSize + body.length) ++ encode 4 msgSeq ++ encode 4 msgId ++ body)
    (by rw [← hlength, ← htotal, hroom, htotal]; omega)
  rw [← hlength] at htake
  exact htake

/-- The packet of a call that returns true has the length of its content. -/
theorem getLength_of_unread
    (hlen : headerSize + body.length < Buffer.maxSize)
    (hread : p.readCursor = 0)
    (hunread : p.unread = written msgSeq msgId body) :
    p.getLength = headerSize + body.length := by
  rw [Packet.getLength_eq hread (by rw [hunread, written_length]; omega), hunread]
  exact wordAt_written_length msgSeq msgId hlen

/-- The body of both Write functions is all or nothing exactly when the total
length survives the cut to 16 bits or is cut to a length that does not fit. -/
theorem writeBody_allOrNothing_iff
    (hsize : Packet.totalLength size = Packet.totalLength body.length) :
    AllOrNothing (p.writeBody msgSeq msgId size body true) msgSeq msgId body ↔
      Fits body.length := by
  constructor
  · intro h
    by_contra hfits
    have hlong : 2 ^ 16 ≤ body.length + headerSize ∧
        Packet.totalLength body.length < Buffer.maxSize := by
      unfold Fits at hfits
      unfold Packet.totalLength Buffer.maxSize
      omega
    have hcap : Packet.totalLength size < p.capacity := by
      rw [hsize, p.capacity_eq]
      exact hlong.2
    -- The last byte of the body lies behind the array.
    have hlast := h.inside (headerSize, body.length)
      (by simp [Packet.writeBody, dif_pos hcap]) (headerSize + body.length - 1)
      (by unfold headerSize at hlong ⊢; simp only; omega) (by simp only; omega)
    rw [Packet.capacity_eq] at hlast
    unfold Buffer.maxSize at hlast
    omega
  · intro hfits
    by_cases hlen : headerSize + body.length < Buffer.maxSize
    · rcases @writeBody_of_lt p msgSeq msgId size body hlen hsize true with ⟨_, hpacket⟩
      rcases hpacket rfl with ⟨hread, hunread⟩
      refine ⟨?_, fun _ => ⟨hunread, getLength_of_unread hlen hread hunread⟩⟩
      intro range hrange i _ hi
      rw [Packet.capacity_eq]
      have hcap : Packet.totalLength size < p.capacity := by
        rw [totalLength_of_lt (by unfold Buffer.maxSize at hlen; omega) hsize, p.capacity_eq]
        exact hlen
      simp only [Packet.writeBody, dif_pos hcap, List.mem_cons, List.not_mem_nil,
        or_false] at hrange
      unfold headerSize at hlen
      unfold Buffer.maxSize at hlen ⊢
      rcases hrange with rfl | rfl | rfl | rfl <;> simp only [headerSize] at hi <;> omega
    · have hcap : ¬ Packet.totalLength size < p.capacity := by
        rw [hsize, p.capacity_eq]
        unfold Fits at hfits
        unfold Packet.totalLength
        unfold Buffer.maxSize at hlen ⊢
        omega
      simp only [Packet.writeBody, dif_neg hcap]
      exact ⟨fun range hrange => absurd hrange List.not_mem_nil, fun hok => by cases hok⟩

/-- A text whose length fits is sent as a whole. If it is refused, an empty
packet is sent. -/
theorem sendText_unread
    (p : Packet)
    (msgSeq msgId : Nat)
    {str : List UInt8}
    (hfits : Fits (str ++ [0]).length) :
    (Session.sendText p msgSeq msgId str).unread =
      if headerSize + (str ++ [0]).length < Buffer.maxSize then
        written msgSeq msgId (str ++ [0])
      else
        [] := by
  unfold Session.sendText Packet.writeBytes
  split_ifs with hlen
  · exact ((writeBody_of_lt hlen rfl true).2 rfl).2
  · have hcap : ¬ Packet.totalLength (str ++ [0]).length < p.capacity := by
      rw [p.capacity_eq]
      unfold Fits at hfits
      unfold Packet.totalLength
      unfold Buffer.maxSize at hlen ⊢
      omega
    simp only [Packet.writeBody, dif_neg hcap]
    exact (Buffer.unread_eq_nil_iff _).mpr rfl

end AllOrNothing

section OfValue

variable {order : {declared : List String} → Idlc.VarType declared → Idlc.Compare}
  {declared : List String} {env : Idlc.Environment declared} {name : String}
  {known : name ∈ declared} {msgId : Nat} {v : Idlc.Value} {msg : Msg}

/-- The message of a value has the results of its Size and its Store. -/
theorem ofValue_eq_some
    (hmsg : Msg.ofValue order env name known msgId v = some msg) :
    ∃ size body, env.sizes name known v = some size ∧
      (env.serializer order name known).store v = some body ∧
      msg = { msgId := msgId, size := size, body := body, stored := true } := by
  simp only [Msg.ofValue, Option.bind_eq_bind, Option.bind_eq_some_iff] at hmsg
  rcases hmsg with ⟨size, hsize, body, hbody, hmsg⟩
  cases hmsg
  exact ⟨size, body, hsize, hbody, rfl⟩

/-- The size of a value of an IDL type has the low bits of the length of its
body. -/
theorem totalLength_ofValue
    (hmsg : Msg.ofValue order env name known msgId v = some msg) :
    msg.stored = true ∧
      Packet.totalLength msg.size = Packet.totalLength msg.body.length := by
  rcases ofValue_eq_some hmsg with ⟨size, body, hsize, hbody, rfl⟩
  rcases Idlc.measures_environment order env name known v body hbody with ⟨n, hn, hlow, _⟩
  rw [hsize] at hn
  cases hn
  refine ⟨rfl, ?_⟩
  unfold Packet.totalLength
  simp only
  omega

/-- The MSG_ID of a message. -/
theorem msgId_ofValue
    (hmsg : Msg.ofValue order env name known msgId v = some msg) :
    msg.msgId = msgId := by
  rcases ofValue_eq_some hmsg with ⟨_, _, _, _, rfl⟩
  rfl

/-- The body of a message is what Store writes. -/
theorem store_ofValue
    (hmsg : Msg.ofValue order env name known msgId v = some msg) :
    (env.serializer order name known).store v = some msg.body := by
  rcases ofValue_eq_some hmsg with ⟨_, _, _, hbody, rfl⟩
  exact hbody

end OfValue

/-- Where Store hides no field, the names do not matter. -/
theorem ofFile_eq
    (order : {declared : List String} → Idlc.VarType declared → Idlc.Compare)
    {declared : List String}
    {file : Idlc.IdlFile declared}
    (hclear : file.Forall (Idlc.NamedDecl.HasFields Idlc.StoreClear))
    (name : String)
    (known : name ∈ declared)
    (msgId : Nat)
    (v : Idlc.Value) :
    Msg.ofFile order file name known msgId v =
      Msg.ofValue order file.layout name known msgId v := by
  rw [Msg.ofFile, Msg.ofValue, Idlc.store_layout order hclear]

/-- A value of an IDL type that Store accepts has a message. -/
theorem exists_ofValue
    (order : {declared : List String} → Idlc.VarType declared → Idlc.Compare)
    {declared : List String}
    {env : Idlc.Environment declared}
    {name : String}
    {known : name ∈ declared}
    (msgId : Nat)
    {v : Idlc.Value}
    {body : List UInt8}
    (hbody : (env.serializer order name known).store v = some body) :
    ∃ msg, Msg.ofValue order env name known msgId v = some msg ∧ msg.body = body := by
  rcases Idlc.measures_environment order env name known v body hbody with ⟨n, hn, _⟩
  exact ⟨{ msgId := msgId, size := n, body := body, stored := true },
    by simp [Msg.ofValue, hn, hbody], rfl⟩

/-- A packet that the pool has just created. -/
def freshPacket : Packet :=
  Packet.ofStorage ⟨List.replicate Buffer.maxSize 0, Packet.length_zeros⟩

end Tcp
end Gamnet
