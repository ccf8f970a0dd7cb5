import Gamnet.Tcp.Packet
import Gamnet.Unity.Session

/-!
# Reads of the client

A read is given to OnReceive in a buffer of its own. Whatever the reads are, no
handler gets more bytes than a buffer holds behind a header. Reads that carry
one frame of at most BUFFER_SIZE bytes call the handler of the frame, wherever
the cuts are.
-/

namespace Gamnet
namespace Unity

open LittleEndian

/-- What EndReceive leaves in a buffer. -/
abbrev Read : Type :=
  {bytes : List UInt8 // bytes.length ≤ bufferSize}

/-- The buffer of a ReceiveEvent. -/
def Buffer.received (read : Read) : Buffer where
  data := Gamnet.Buffer.overwrite Buffer.empty.data 0 read.1
  readIndex := 0
  writeIndex := read.1.length
  data_length := by
    rw [Gamnet.Buffer.overwrite_length, Buffer.empty.data_length]
  read_le_write := Nat.zero_le _
  write_le_size := read.2

@[simp] theorem Buffer.received_unread
    (read : Read) :
    (Buffer.received read).unread = read.1 := by
  have hfits : read.1.length ≤ Buffer.empty.data.length := by
    rw [Buffer.empty.data_length]
    exact read.2
  exact Gamnet.Buffer.take_overwrite hfits

@[simp] theorem Buffer.received_size
    (read : Read) :
    (Buffer.received read).size = read.1.length := by
  rw [← Buffer.unread_length, Buffer.received_unread]

/-- A handler is called with no more bytes than a buffer holds behind a
header. -/
def Event.Fits : Event → Prop
  | .dispatch _ stream => headerSize + stream.length ≤ bufferSize
  | _ => True

namespace Session

variable {F : Type}

/-- Events that fit were added to the trace. -/
def Grows (s s' : Session F) : Prop :=
  ∃ es, s'.trace = s.trace ++ es ∧ ∀ e ∈ es, e.Fits

namespace Grows

variable {s s₁ s' : Session F}

theorem of_trace_eq
    (htrace : s'.trace = s.trace) :
    Grows s s' :=
  ⟨[], by rw [htrace, List.append_nil], fun _ he => absurd he List.not_mem_nil⟩

theorem trans
    (h₁ : Grows s s₁)
    (h₂ : Grows s₁ s') :
    Grows s s' := by
  obtain ⟨es₁, htrace₁, hes₁⟩ := h₁
  obtain ⟨es₂, htrace₂, hes₂⟩ := h₂
  refine ⟨es₁ ++ es₂, by rw [htrace₂, htrace₁, List.append_assoc], ?_⟩
  intro e he
  rcases List.mem_append.mp he with he | he
  · exact hes₁ e he
  · exact hes₂ e he

theorem log
    (s : Session F)
    {e : Event}
    (he : e.Fits) :
    Grows s (s.log e) := by
  refine ⟨[e], rfl, ?_⟩
  intro e' he'
  rw [List.mem_singleton.mp he']
  exact he

end Grows

section Rounds

variable (react : React F)

/-- Functions of the application raise errors only. -/
theorem grows_invoke
    (stream : List UInt8)
    (position : Nat)
    (handler : List F)
    (s : Session F) :
    Grows s (invoke react stream position handler s).1 := by
  induction handler generalizing position s with
  | nil =>
      exact Grows.of_trace_eq rfl
  | cons f handler ih =>
      have hfirst : Grows s
          { s with
            toOpen := (react f stream position s.toOpen).after
            trace := s.trace ++
              (react f stream position s.toOpen).errors.map fun e => .error e.1 e.2 } := by
        refine ⟨_, rfl, ?_⟩
        intro e he
        obtain ⟨_, _, rfl⟩ := List.mem_map.mp he
        trivial
      rw [invoke]
      dsimp only
      cases (react f stream position s.toOpen).thrown with
      | some e =>
          exact hfirst
      | none =>
          exact hfirst.trans (ih _ _)

/-- The call of a handler is logged in front of what its functions raise. -/
theorem grows_handle
    (s : Session F)
    (msgId : UInt32)
    (handler : List F)
    (stream : List UInt8) :
    Grows (s.log (.dispatch msgId stream)) (handle react s msgId handler stream) := by
  have hinvoke := grows_invoke react stream 0 handler (s.log (.dispatch msgId stream))
  unfold handle
  split
  · rename_i s' heq
    rw [heq] at hinvoke
    exact hinvoke
  · rename_i s' e heq
    rw [heq] at hinvoke
    exact hinvoke.trans (Grows.log _ trivial)

/-- The call of a handler with the unread bytes behind the header of a
packet. -/
theorem grows_handle_unread
    (s : Session F)
    (msgId : UInt32)
    (handler : List F)
    (hsize : headerSize ≤ s.recvBuff.size) :
    Grows s (handle react (s.unsetTimeout msgId) msgId handler
      (s.recvBuff.unread.drop headerSize)) := by
  have hfits : (Event.dispatch msgId (s.recvBuff.unread.drop headerSize)).Fits := by
    have hle := s.recvBuff.size_le
    simp only [Event.Fits, List.length_drop, Buffer.unread_length]
    omega
  exact (Grows.log (s.unsetTimeout msgId) hfits).trans (grows_handle react _ _ _ _)

/-- A round that goes on has called a handler and skipped its packet. -/
theorem receiveRound_inl
    {s s' : Session F}
    (h : receiveRound react s = .inl s') :
    headerSize ≤ s.recvBuff.size ∧
      ∃ msgId handler n, ∃ hn : n ≤ s.recvBuff.size,
        s' = { handle react (s.unsetTimeout msgId) msgId handler
            (s.recvBuff.unread.drop headerSize) with
          recvBuff := s.recvBuff.skip n hn } := by
  unfold receiveRound at h
  dsimp only at h
  split_ifs at h with hheader hlimit henough
  split at h
  · cases h
  · exact ⟨Nat.le_of_not_lt hheader, _, _, _, henough, (Sum.inl.inj h).symm⟩

/-- A round that ends the loop may raise an error. -/
theorem receiveRound_inr
    {s s' : Session F}
    (h : receiveRound react s = .inr s') :
    s' = s ∨ ∃ code message, s' = s.error code message := by
  unfold receiveRound at h
  dsimp only at h
  split_ifs at h with hheader hlimit henough
  · exact .inl (Sum.inr.inj h).symm
  · exact .inr ⟨_, _, (Sum.inr.inj h).symm⟩
  · split at h
    · exact .inr ⟨_, _, (Sum.inr.inj h).symm⟩
    · cases h
  · exact .inl (Sum.inr.inj h).symm

theorem grows_onReceive
    {fuel : Nat}
    {s s' : Session F}
    {buf : Buffer}
    (h : onReceive react fuel s buf = some s') :
    Grows s s' := by
  unfold onReceive at h
  split at h
  · cases h
    exact Grows.log s trivial
  · rename_i buff _
    have hstart : Grows s { s with recvBuff := buff } := Grows.of_trace_eq rfl
    refine WhileLoop.run_rule (Grows s) (Grows s) ?_ ?_ fuel hstart h
    · intro s₁ s₂ h₁ hround
      obtain ⟨hheader, msgId, handler, n, hn, rfl⟩ := receiveRound_inl react hround
      have hhandle := grows_handle_unread react s₁ msgId handler hheader
      exact h₁.trans (hhandle.trans (Grows.of_trace_eq rfl))
    · intro s₁ s₂ h₁ hround
      rcases receiveRound_inr react hround with rfl | ⟨code, message, rfl⟩
      · exact h₁
      · exact h₁.trans (Grows.log s₁ trivial)

/-- The ReceiveEvents of some reads, one after the other. -/
def onReceives (fuel : Nat) (s : Session F) : List Read → Option (Session F)
  | [] => some s
  | read :: reads =>
      match onReceive react fuel s (Buffer.received read) with
      | none => none
      | some s => onReceives fuel s reads

theorem grows_onReceives
    {fuel : Nat}
    {s s' : Session F}
    {reads : List Read}
    (h : onReceives react fuel s reads = some s') :
    Grows s s' := by
  induction reads generalizing s with
  | nil =>
      cases h
      exact Grows.of_trace_eq rfl
  | cons read reads ih =>
      rw [onReceives] at h
      split at h
      · cases h
      · rename_i s₁ hread
        exact (grows_onReceive react hread).trans (ih h)

end Rounds

section Frames

variable (react : React F) {s : Session F} {f : Tcp.Frame} {rest : List UInt8}

/-- The length field of a frame whose header is unread. -/
theorem packetLength_eq
    (hunread : s.recvBuff.unread ++ rest = f.bytes)
    (hheader : headerSize ≤ s.recvBuff.size) :
    wordAt (s.recvBuff.readIndex + 0) 2 s.recvBuff.data = f.length := by
  unfold headerSize at hheader
  rw [Buffer.wordAt_data (by omega), ← wordAt_append (by simp; omega) rest, hunread]
  exact f.isFrame.lengthOf_eq

/-- Nothing is unread, or a frame is not complete. -/
theorem receiveRound_waiting
    (hlen : f.length ≤ bufferSize)
    (hunread : s.recvBuff.unread ++ rest = f.bytes)
    (hrest : rest ≠ []) :
    receiveRound react s = .inr s := by
  have hsize : s.recvBuff.size + rest.length = f.length := by
    rw [← Buffer.unread_length, ← List.length_append, hunread]
    rfl
  have hpos := List.length_pos_of_ne_nil hrest
  unfold receiveRound
  by_cases hheader : s.recvBuff.size < headerSize
  · simp only [if_pos hheader]
  · have hlength := packetLength_eq hunread (Nat.le_of_not_lt hheader)
    simp only [if_neg hheader, hlength]
    rw [if_neg (by omega), dif_neg (by omega)]

theorem receiveRound_nil
    (hunread : s.recvBuff.unread = []) :
    receiveRound react s = .inr s := by
  have hsize := (Buffer.unread_eq_nil_iff s.recvBuff).mp hunread
  unfold receiveRound
  simp only [hsize]
  rfl

/-- The handler of a complete frame is called, and the frame is skipped. -/
theorem receiveRound_frame
    {g : F} {gs : List F}
    (hlen : f.length ≤ bufferSize)
    (hunread : s.recvBuff.unread = f.bytes)
    (hhandler : s.handlers (UInt32.ofNat f.id) = g :: gs) :
    ∃ s', receiveRound react s = .inl s' ∧
      s'.recvBuff.unread = [] ∧
      ∃ es, s'.trace = s.trace ++ es ∧
        .dispatch (UInt32.ofNat f.id) (f.bytes.drop headerSize) ∈ es := by
  have hsize : s.recvBuff.size = f.length := by
    rw [← Buffer.unread_length, hunread]
    rfl
  have hheader : headerSize ≤ s.recvBuff.size := by
    rw [hsize]
    exact f.headerSize_le
  have hlength : wordAt (s.recvBuff.readIndex + 0) 2 s.recvBuff.data = f.length :=
    packetLength_eq (by rw [List.append_nil, hunread]) hheader
  have hid : wordAt (s.recvBuff.readIndex + 6) 4 s.recvBuff.data = f.id := by
    unfold headerSize at hheader
    rw [Buffer.wordAt_data (by omega), hunread]
    rfl
  obtain ⟨es, htrace, _⟩ := grows_handle react (s.unsetTimeout (UInt32.ofNat f.id))
    (UInt32.ofNat f.id) (g :: gs) (f.bytes.drop headerSize)
  refine ⟨{ handle react (s.unsetTimeout (UInt32.ofNat f.id)) (UInt32.ofNat f.id) (g :: gs)
      (f.bytes.drop headerSize) with
    recvBuff := s.recvBuff.skip f.length (Nat.le_of_eq hsize.symm) }, ?_, ?_,
    .dispatch (UInt32.ofNat f.id) (f.bytes.drop headerSize) :: es, ?_, List.mem_cons_self⟩
  · unfold receiveRound
    simp only [if_neg (Nat.not_lt.mpr hheader), hlength, hid, hhandler, hunread]
    rw [if_neg (Nat.not_lt.mpr hlen), dif_pos (Nat.le_of_eq hsize.symm)]
  · rw [Buffer.skip_unread, hunread]
    exact List.drop_length
  · rw [htrace]
    exact List.append_assoc _ _ _

/-- OnReceive of a read that fits. -/
theorem onReceive_of_fits
    {read : Read}
    (hfits : s.recvBuff.size + read.1.length ≤ bufferSize) :
    ∃ buff, buff.unread = s.recvBuff.unread ++ read.1 ∧
      ∀ fuel, onReceive react fuel s (Buffer.received read) =
        WhileLoop.run (receiveRound react) fuel { s with recvBuff := buff } := by
  obtain ⟨buff, hadd, hunread⟩ := @Buffer.add_spec s.recvBuff (Buffer.received read) (by
    rw [Buffer.received_size]
    exact hfits)
  rw [Buffer.received_unread] at hunread
  exact ⟨buff, hunread, fun fuel => by simp only [onReceive, hadd]⟩

/-- Reads without bytes, behind a complete frame. -/
theorem onReceives_nil
    {reads : List Read}
    (hunread : s.recvBuff.unread = [])
    (hreads : (reads.map Subtype.val).flatten = []) :
    ∃ s', onReceives react 2 s reads = some s' ∧ s'.trace = s.trace := by
  induction reads generalizing s with
  | nil =>
      exact ⟨s, rfl, rfl⟩
  | cons read reads ih =>
      rw [List.map_cons, List.flatten_cons, List.append_eq_nil_iff] at hreads
      have hsize := (Buffer.unread_eq_nil_iff s.recvBuff).mp hunread
      obtain ⟨buff, hbuff, hcall⟩ := @onReceive_of_fits _ react s read (by
        rw [hsize, Nat.zero_add]
        exact read.2)
      rw [hunread, hreads.1, List.nil_append] at hbuff
      have hround : receiveRound react { s with recvBuff := buff } =
          .inr { s with recvBuff := buff } :=
        receiveRound_nil react hbuff
      obtain ⟨s', hlater, htrace⟩ := @ih { s with recvBuff := buff } hbuff hreads.2
      refine ⟨s', ?_, htrace⟩
      simp only [onReceives, hcall, WhileLoop.run_done hround, hlater]

/-- Reads that carry the rest of a frame call its handler. -/
theorem onReceives_frame
    {reads : List Read}
    (hlen : f.length ≤ bufferSize)
    (hstream : s.recvBuff.unread ++ (reads.map Subtype.val).flatten = f.bytes)
    (hproper : s.recvBuff.unread ≠ f.bytes)
    (hhandler : s.handlers (UInt32.ofNat f.id) ≠ []) :
    ∃ s', onReceives react 2 s reads = some s' ∧
      ∃ es, s'.trace = s.trace ++ es ∧
        .dispatch (UInt32.ofNat f.id) (f.bytes.drop headerSize) ∈ es := by
  induction reads generalizing s with
  | nil =>
      rw [List.map_nil, List.flatten_nil, List.append_nil] at hstream
      exact absurd hstream hproper
  | cons read reads ih =>
      rw [List.map_cons, List.flatten_cons, ← List.append_assoc] at hstream
      have hsum := congrArg List.length hstream
      simp only [List.length_append, Buffer.unread_length] at hsum
      have hlength : f.bytes.length = f.length := rfl
      obtain ⟨buff, hbuff, hcall⟩ := @onReceive_of_fits _ react s read (by omega)
      rw [← hbuff] at hstream
      by_cases hrest : (reads.map Subtype.val).flatten = []
      · -- The read completes the frame.
        rw [hrest, List.append_nil] at hstream
        obtain ⟨g, gs, hgs⟩ := List.exists_cons_of_ne_nil hhandler
        obtain ⟨s₁, hround, hunread₁, es, htrace, hmem⟩ :=
          @receiveRound_frame _ react { s with recvBuff := buff } f g gs hlen hstream hgs
        obtain ⟨s', hlater, htrace'⟩ := onReceives_nil react hunread₁ hrest
        refine ⟨s', ?_, es, htrace'.trans htrace, hmem⟩
        simp only [onReceives, hcall, WhileLoop.run_continue hround,
          WhileLoop.run_done (receiveRound_nil react hunread₁), hlater]
      · have hround : receiveRound react { s with recvBuff := buff } =
            .inr { s with recvBuff := buff } :=
          receiveRound_waiting react hlen hstream hrest
        have hproper' : buff.unread ≠ f.bytes := by
          intro heq
          rw [heq, List.append_right_eq_self] at hstream
          exact hrest hstream
        obtain ⟨s', hlater, hdispatch⟩ :=
          @ih { s with recvBuff := buff } hstream hproper' hhandler
        refine ⟨s', ?_, hdispatch⟩
        simp only [onReceives, hcall, WhileLoop.run_done hround, hlater]

end Frames

end Session

/-- A connected client with one function for every message id. -/
def listener : Session Unit where
  state := .connected
  timers := fun _ => 0
  handlers := fun _ => [()]
  msgSeq := 1
  sendQueue := []
  sendQueueIdx := 0
  recvBuff := .empty
  trace := []

/-- A function that does nothing. -/
def ignore : React Unit := fun _ _ position s =>
  { after := s, errors := [], position := position, thrown := none }

end Unity
end Gamnet
