import Gamnet.Tcp.PacketWrite
import Gamnet.Tcp.SingleFrame
import Gamnet.Unity.Receive
import Gamnet.Unity.Send

/-!
# What the client and the server can send to each other

A message that the client queues is dispatched by the server, unless its number
has wrapped around. A message that the server writes is dispatched by the client
exactly if its packet fits into the buffer of the client: Write compares the low
16 bits of the length with the capacity of its own packet, which is eight times
as large.
-/

namespace Gamnet
namespace Unity

open LittleEndian

/-- An object of a generated C# type, as SendMsg sees it. -/
def Msg.ofObject
    (runtime : Idlc.CSharp.Runtime)
    {declared : List String}
    (idl : Idlc.Environment declared)
    (name : String)
    (known : name ∈ declared)
    (msgId : UInt32)
    (o : Idlc.CSharp.Object) : Msg where
  msgId := msgId
  stored := ((idl.csharp runtime name known).store o).bytes
  size := (idl.csharp runtime name known).size o

theorem ofObject_spec
    (runtime : Idlc.CSharp.Runtime)
    {declared : List String}
    {idl : Idlc.Environment declared}
    {name : String}
    {known : name ∈ declared}
    (msgId : UInt32)
    {o : Idlc.CSharp.Object}
    (ho : idl.objects name known o)
    (hfits : headerSize + (Msg.ofObject runtime idl name known msgId o).stored.length ≤
      bufferSize) :
    ushort (headerSize + (Msg.ofObject runtime idl name known msgId o).size) =
      headerSize + (Msg.ofObject runtime idl name known msgId o).stored.length := by
  rcases Idlc.filled_environment runtime idl name known o ho with ⟨bytes, hbytes, hsize⟩
  have hstored : (Msg.ofObject runtime idl name known msgId o).stored = bytes := by
    simp only [Msg.ofObject, hbytes, Idlc.CSharp.write]
  rw [hstored] at hfits ⊢
  unfold headerSize bufferSize at *
  have hlen : (Msg.ofObject runtime idl name known msgId o).size = bytes.length :=
    Option.some.inj (hsize (by omega))
  rw [hlen]
  unfold ushort
  omega

section Bytes

variable {msgSeq : Nat} {msgId : UInt32} {body : List UInt8}

theorem written_eq
    (hlen : Tcp.headerSize + body.length < Gamnet.Buffer.maxSize)
    (msgSeq : UInt32) :
    Packet.written (headerSize + body.length) msgSeq msgId body =
      (Tcp.Frame.write msgSeq.toNat msgId.toNat body hlen).bytes := by
  rfl

theorem write_id
    (hlen : Tcp.headerSize + body.length < Gamnet.Buffer.maxSize) :
    (Tcp.Frame.write msgSeq msgId.toNat body hlen).id = msgId.toNat :=
  Tcp.Frame.write_id hlen msgId.toNat_lt

theorem drop_write
    (hlen : Tcp.headerSize + body.length < Gamnet.Buffer.maxSize) :
    (Tcp.Frame.write msgSeq msgId.toNat body hlen).bytes.drop headerSize = body := by
  apply List.drop_left'
  simp [headerSize]

end Bytes

section Client

variable {F : Type} {react : React F} {c : Session F} {msgId : UInt32} {body : List UInt8}

/-- Whatever the cuts, the reads of some bytes call the handler of a message id
with a body. -/
def ReachesClient
    (react : React F) (c : Session F)
    (bytes : List UInt8) (msgId : UInt32) (body : List UInt8) : Prop :=
  ∀ reads : List Read, (reads.map Subtype.val).flatten = bytes →
    ∃ fuel c' es, c.onReceives react fuel reads = some c' ∧ c'.trace = c.trace ++ es ∧
      .dispatch msgId body ∈ es

/-- A packet that fits into the buffer of the client. -/
theorem reachesClient_of_fits
    (msgSeq : Nat)
    (hempty : c.recvBuff.unread = [])
    (hhandler : c.handlers msgId ≠ [])
    (hfits : headerSize + body.length ≤ bufferSize) :
    ReachesClient react c (Tcp.written msgSeq msgId.toNat body) msgId body := by
  have hlen : Tcp.headerSize + body.length < Gamnet.Buffer.maxSize :=
    Nat.lt_of_le_of_lt hfits (by decide)
  have hid : UInt32.ofNat (Tcp.Frame.write msgSeq msgId.toNat body hlen).id = msgId := by
    rw [write_id, UInt32.ofNat_toNat]
  intro reads hreads
  obtain ⟨c', hcalls, es, htrace, hmem⟩ :=
    @Session.onReceives_frame F react c (Tcp.Frame.write msgSeq msgId.toNat body hlen) reads
      (by rw [Tcp.Frame.write_length]; exact hfits)
      (by rw [hempty, List.nil_append, hreads]; rfl)
      (by
        rw [hempty]
        exact (List.ne_nil_of_length_pos (Tcp.Frame.length_pos _)).symm)
      (by rw [hid]; exact hhandler)
  rw [hid, drop_write] at hmem
  exact ⟨2, c', es, hcalls, htrace, hmem⟩

/-- No handler is called with a body that is longer than a buffer. -/
theorem not_reachesClient
    (bytes : List UInt8)
    (hlong : bufferSize < headerSize + body.length) :
    ¬ ReachesClient react c bytes msgId body := by
  intro h
  have hone : ∀ byte : UInt8, [byte].length ≤ bufferSize :=
    fun _ => (by decide : 1 ≤ bufferSize)
  have hreads : ((bytes.map fun byte => (⟨[byte], hone byte⟩ : Read)).map
      Subtype.val).flatten = bytes := by
    rw [List.map_map, ← List.flatMap_def]
    exact List.flatMap_singleton' bytes
  obtain ⟨fuel, c', es, hcalls, htrace, hmem⟩ := h _ hreads
  obtain ⟨es', htrace', hfits⟩ := Session.grows_onReceives react hcalls
  rw [htrace'] at htrace
  rw [← List.append_cancel_left htrace] at hmem
  exact absurd (hfits _ hmem) (Nat.not_le.mpr hlong)

end Client

section Server

variable {A : Type} {env : Tcp.Env A} {w : Tcp.World A} {l : Tcp.LinkId} {s : Tcp.SessionId}
variable {msgId : UInt32} {body : List UInt8}

/-- A packet of the server with the id and the body of a message. -/
structure Carries (p : Tcp.Packet) (msgId : UInt32) (body : List UInt8) : Prop where
  getID : p.getID = msgId.toNat
  getLength : p.getLength = headerSize + body.length
  body : (p.unread.drop headerSize).take body.length = body

/-- Whatever the cuts, the reads of some bytes hand one packet of a message to
the dispatcher. -/
def ReachesServer
    (env : Tcp.Env A) (w : Tcp.World A) (l : Tcp.LinkId) (s : Tcp.SessionId)
    (bytes : List UInt8) (msgId : UInt32) (body : List UInt8) : Prop :=
  ∀ reads : List (List UInt8), (∀ read ∈ reads, read ≠ []) → reads.flatten = bytes →
    ∃ p, (Tcp.onRecvMsgs env l w reads).world.dispatched s = w.dispatched s ++ [p] ∧
      Carries p msgId body

theorem carries_of_shows
    {p : Tcp.Packet}
    {msgSeq : Nat}
    (hlen : Tcp.headerSize + body.length < Gamnet.Buffer.maxSize)
    (hshows : Tcp.Shows p (Tcp.Frame.write msgSeq msgId.toNat body hlen)) :
    Carries p msgId body := by
  refine ⟨?_, ?_, ?_⟩
  · rw [hshows.getID, write_id]
  · rw [hshows.getLength, Tcp.Frame.write_length]
    rfl
  · obtain ⟨rest, hrest⟩ := hshows.bytes
    have hheader : headerSize ≤ (Tcp.Frame.write msgSeq msgId.toNat body hlen).bytes.length :=
      Tcp.Frame.headerSize_le _
    rw [← hrest, List.drop_append_of_le_length hheader, drop_write, List.take_left]

/-- A packet that the client queued, on a session that waits for a frame. -/
theorem reachesServer_iff
    {msgSeq : UInt32}
    (htcp : env.kind = .tcp)
    (h : Tcp.Receiving w l s [])
    (hfits : headerSize + body.length ≤ bufferSize) :
    ReachesServer env w l s (Packet.written (headerSize + body.length) msgSeq msgId body)
        msgId body ↔
      (w.sessions s).msgSeq < msgSeq.toNat := by
  have hlen : Tcp.headerSize + body.length < Gamnet.Buffer.maxSize :=
    Nat.lt_of_le_of_lt hfits (by decide)
  have haccepts : env.kind.accepts (w.sessions s).msgSeq
      (Tcp.Frame.write msgSeq.toNat msgId.toNat body hlen) =
        decide ((w.sessions s).msgSeq < msgSeq.toNat) := by
    rw [htcp, Tcp.Kind.accepts, Tcp.Frame.write_seq hlen msgSeq.toNat_lt]
  have hne : (Tcp.Frame.write msgSeq.toNat msgId.toNat body hlen).bytes ≠ [] :=
    List.ne_nil_of_length_pos (Tcp.Frame.length_pos _)
  rw [written_eq hlen]
  constructor
  · intro hreaches
    by_contra hold
    obtain ⟨p, hp, _⟩ := hreaches
      [(Tcp.Frame.write msgSeq.toNat msgId.toNat body hlen).bytes]
      (fun read hread => by rw [List.mem_singleton.mp hread]; exact hne)
      List.flatten_singleton
    have hdiscards := Tcp.onRecvMsg_discards env h (List.nil_append _)
      (haccepts.trans (decide_eq_false hold))
    have hone : (Tcp.onRecvMsgs env l w
        [(Tcp.Frame.write msgSeq.toNat msgId.toNat body hlen).bytes]).world =
          (Tcp.onRecvMsg env l w
            (Tcp.Frame.write msgSeq.toNat msgId.toNat body hlen).bytes).world := by
      rw [Tcp.onRecvMsgs_cons]
      cases Tcp.onRecvMsg env l w _ <;> rfl
    rw [hone, hdiscards, List.self_eq_append_right] at hp
    cases hp
  · intro hnew reads hnonempty hreads
    obtain ⟨p, hp, hshows⟩ := Tcp.onRecvMsgs_dispatched env h
      (by rw [List.nil_append]; exact hreads) hne.symm hnonempty
      (haccepts.trans (decide_eq_true hnew))
    exact ⟨p, hp, carries_of_shows hlen hshows⟩

end Server

section Agree

variable {A F : Type} {env : Tcp.Env A} {react : React F}

/-- What one end accepts, the other end dispatches: the packet that Write makes
of a message on the server, and the packet that SendMsg queues for it on the
client, whatever the socket does. -/
structure Agree
    (env : Tcp.Env A) (w : Tcp.World A) (l : Tcp.LinkId) (s : Tcp.SessionId)
    (react : React F) (c : Session F)
    (p : Tcp.Packet) (msgSeq : Nat) (msgId : UInt32) (msg : Tcp.Msg) (sent : Msg) :
    Prop where
  toClient : (p.write msgSeq msg).ok = true →
    ReachesClient react c (p.write msgSeq msg).packet.unread msgId msg.body
  toServer : ∀ socket handOverRelility packet,
    Session.Queues c (c.sendMsg socket sent handOverRelility) packet →
      ReachesServer env w l s packet.bytes msgId sent.stored

/-- Write refuses a packet if the low bits of its length are all set. -/
theorem write_ok_iff
    {p : Tcp.Packet}
    {msgSeq : Nat}
    {msg : Tcp.Msg}
    (hstored : msg.stored = true)
    (hsize : Tcp.Packet.totalLength msg.size = Tcp.Packet.totalLength msg.body.length) :
    (p.write msgSeq msg).ok = true ↔
      (headerSize + msg.body.length) % 2 ^ 16 ≠ 2 ^ 16 - 1 := by
  have hlow : Tcp.Packet.totalLength msg.size = (headerSize + msg.body.length) % 2 ^ 16 := by
    rw [hsize, Nat.add_comm]
    rfl
  have hcap := p.capacity_eq
  unfold Gamnet.Buffer.maxSize at hcap
  unfold Tcp.Packet.write Tcp.Packet.writeBody
  split_ifs with htotal
  · refine ⟨fun _ => ?_, fun _ => hstored⟩
    omega
  · refine ⟨fun h => ?_, fun h => ?_⟩
    · cases h
    · omega

/-- From the server to the client. -/
theorem toClient_iff
    {c : Session F}
    {p : Tcp.Packet}
    {msgSeq : Nat}
    {msgId : UInt32}
    {msg : Tcp.Msg}
    (hid : msg.msgId = msgId.toNat)
    (hstored : msg.stored = true)
    (hsize : Tcp.Packet.totalLength msg.size = Tcp.Packet.totalLength msg.body.length)
    (hempty : c.recvBuff.unread = [])
    (hhandler : c.handlers msgId ≠ []) :
    ((p.write msgSeq msg).ok = true →
        ReachesClient react c (p.write msgSeq msg).packet.unread msgId msg.body) ↔
      headerSize + msg.body.length ≤ bufferSize ∨
        (headerSize + msg.body.length) % 2 ^ 16 = 2 ^ 16 - 1 := by
  rw [write_ok_iff hstored hsize]
  constructor
  · intro hreaches
    by_contra hcond
    rw [not_or] at hcond
    exact not_reachesClient _ (Nat.lt_of_not_le hcond.1) (hreaches hcond.2)
  · rintro (hfits | hlow) hok
    · have hlen : Tcp.headerSize + msg.body.length < Gamnet.Buffer.maxSize :=
        Nat.lt_of_le_of_lt hfits (by decide)
      have hunread := ((@Tcp.writeBody_of_lt p msgSeq msg.msgId msg.size msg.body
        hlen hsize msg.stored).2 hstored).2
      rw [Tcp.Packet.write, hunread, hid]
      exact reachesClient_of_fits msgSeq hempty hhandler hfits
    · exact absurd hlow hok

/-- From the client to the server. -/
theorem toServer_iff
    {w : Tcp.World A} {l : Tcp.LinkId} {s : Tcp.SessionId}
    {c : Session F}
    {sent : Msg}
    (hsize : headerSize + sent.stored.length ≤ bufferSize →
      ushort (headerSize + sent.size) = headerSize + sent.stored.length)
    (htcp : env.kind = .tcp)
    (h : Tcp.Receiving w l s []) :
    (∀ socket handOverRelility packet,
        Session.Queues c (c.sendMsg socket sent handOverRelility) packet →
          ReachesServer env w l s packet.bytes sent.msgId sent.stored) ↔
      (headerSize + sent.stored.length ≤ bufferSize →
        (w.sessions s).msgSeq < (c.msgSeq + 1).toNat) := by
  have hbytes : ∀ socket handOverRelility packet,
      Session.Queues c (c.sendMsg socket sent handOverRelility) packet →
        headerSize + sent.stored.length ≤ bufferSize ∧
          packet.bytes = Packet.written (headerSize + sent.stored.length) (c.msgSeq + 1)
            sent.msgId sent.stored := by
    intro socket handOverRelility packet hqueues
    obtain ⟨hfits, hpacket⟩ := Session.bytes_of_queues hqueues
    rw [hsize hfits] at hpacket
    exact ⟨hfits, hpacket⟩
  constructor
  · intro hreaches hfits
    obtain ⟨packet, hqueues⟩ := @Session.exists_queues F ⟨none, none⟩ sent c false hfits
      (hsize hfits) rfl rfl
    have hpacket := hreaches _ _ _ hqueues
    rw [(hbytes _ _ _ hqueues).2] at hpacket
    exact (reachesServer_iff htcp h hfits).mp hpacket
  · intro hnew socket handOverRelility packet hqueues
    obtain ⟨hfits, hpacket⟩ := hbytes socket handOverRelility packet hqueues
    rw [hpacket]
    exact (reachesServer_iff htcp h hfits).mpr (hnew hfits)

/-- A message Note with a text. -/
def note : Idlc.Environment ["Note"] :=
  .declare .empty "Note" (.message none [.plain .string])

/-- A Note with n letters, on the server. -/
def noteValue (n : Nat) : Idlc.Value :=
  .record none [.text (List.replicate n 97)]

/-- A Note with n letters, on the client. -/
def noteObject (n : Nat) : Idlc.CSharp.Object :=
  .record none [.text (some (List.replicate n 97))]

/-- The Note with n letters, as Write sees it. -/
def noteMsg (n : Nat) : Tcp.Msg where
  msgId := 9
  size := (4 + n) % 2 ^ 64
  body := encode 4 n ++ List.replicate n 97
  stored := true

@[simp] theorem noteMsg_body_length
    (n : Nat) :
    (noteMsg n).body.length = 4 + n := by
  simp [noteMsg]

theorem ofValue_note
    (n : Nat) :
    Tcp.Msg.ofValue (fun {_} _ => .ofWords) note "Note" (by simp) 9 (noteValue n) =
      some (noteMsg n) := by
  have hsize : note.sizes "Note" (by simp) (noteValue n) = some ((4 + n) % 2 ^ 64) := by
    simp [note, noteValue, Idlc.Environment.sizes, Idlc.Environment.compile,
      Idlc.compileDeclSize, Idlc.sizeFields, Idlc.generateFieldSize, Idlc.generateVariableSize]
  have hbody : (note.serializer (fun {_} _ => .ofWords) "Note" (by simp)).store (noteValue n) =
      some (encode 4 n ++ List.replicate n 97) := by
    simp [note, noteValue, Idlc.Environment.serializer, Idlc.Environment.compile,
      Idlc.compileDecl, Idlc.compileMessage, Idlc.storeFields, Idlc.generateFieldStore,
      Idlc.generateVariableStore]
  simp only [Tcp.Msg.ofValue, hsize, hbody]
  rfl

theorem objects_note
    (n : Nat) :
    note.objects "Note" (by simp) (noteObject n) :=
  ⟨.none, .cons trivial .nil⟩

end Agree

end Unity
end Gamnet
