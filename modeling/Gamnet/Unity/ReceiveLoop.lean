import Gamnet.Unity.Receive

/-!
# The receive loop of the client

OnReceive skips as many bytes as the length field of a packet says, and looks only whether
that is too much. A length field below the size of a header is not refused: the loop goes
forward by less than a header, and with zero not at all, so that it calls the handler again
and again.

The loop ends, and each of its rounds that calls a handler goes forward by a header at least,
exactly if the packets up to the one where it stops have length fields of a header at least
(`receive_loop_ends_iff`).
-/

namespace Gamnet
namespace Unity
namespace Session

open LittleEndian

variable {F : Type} (react : React F)

/-- The length field and the id of the packet at the front, if its handler is called. -/
def frontPacket (s : Session F) (bytes : List UInt8) : Option (Nat × UInt32) :=
  if bytes.length < headerSize then none
  else
    let packetLength := wordAt 0 2 bytes
    let msgId := UInt32.ofNat (wordAt 6 4 bytes)
    if bufferSize < packetLength ∨ bytes.length < packetLength ∨ s.handlers msgId = [] then none
    else some (packetLength, msgId)

/-- The packets in the bytes that are handled one after the other, with the handlers that
those in front of them leave, have length fields of a header at least. -/
inductive Sized : Session F → List UInt8 → Prop
  | stop {s : Session F} {bytes : List UInt8} (hfront : s.frontPacket bytes = none) :
      Sized s bytes
  | packet {s : Session F} {bytes : List UInt8} {n : Nat} {msgId : UInt32}
      (hfront : s.frontPacket bytes = some (n, msgId))
      (hlength : headerSize ≤ n)
      (hrest : Sized
        (handle react (s.unsetTimeout msgId) msgId (s.handlers msgId) (bytes.drop headerSize))
        (bytes.drop n)) :
      Sized s bytes

/-- A round moves the read index by a header at least, and not beyond the write index. -/
structure Advances (s s' : Session F) : Prop where
  forward : s.recvBuff.readIndex + headerSize ≤ s'.recvBuff.readIndex
  inside : s'.recvBuff.readIndex ≤ s'.recvBuff.writeIndex
  same : s'.recvBuff.writeIndex = s.recvBuff.writeIndex

/-- OnReceive ends, and each round of its loop that calls a handler advances. -/
structure ReceiveEnds (s : Session F) (buf : Buffer) : Prop where
  ends : ∃ fuel, (onReceive react fuel s buf).isSome
  advances : ∀ buff, s.recvBuff.add buf = .ok buff →
    ∀ t t', WhileLoop.Reaches (receiveRound react) { s with recvBuff := buff } t →
      receiveRound react t = .inl t' → Advances t t'

section Rounds

variable {s t : Session F} {bytes : List UInt8} {n : Nat} {msgId : UInt32}

theorem frontPacket_eq_some_iff :
    s.frontPacket bytes = some (n, msgId) ↔
      headerSize ≤ bytes.length ∧ wordAt 0 2 bytes = n ∧
        UInt32.ofNat (wordAt 6 4 bytes) = msgId ∧
          n ≤ bufferSize ∧ n ≤ bytes.length ∧ s.handlers msgId ≠ [] := by
  unfold frontPacket
  dsimp only
  split_ifs with hheader hstop
  · simp only [false_iff, not_and]
    omega
  · simp only [false_iff]
    rintro ⟨-, rfl, rfl, hlimit, henough, hhandler⟩
    rcases hstop with hlong | hmissing | hnone
    · omega
    · omega
    · exact hhandler hnone
  · simp only [not_or, not_lt] at hheader hstop
    simp only [Option.some.injEq, Prod.mk.injEq]
    constructor
    · rintro ⟨rfl, rfl⟩
      exact ⟨hheader, rfl, rfl, hstop.1, hstop.2.1, hstop.2.2⟩
    · rintro ⟨-, hn, hid, -⟩
      exact ⟨hn, hid⟩

/-- A round without a packet at the front ends the loop. -/
theorem receiveRound_of_none
    (hfront : s.frontPacket s.recvBuff.unread = none) :
    ∃ s', receiveRound react s = .inr s' := by
  cases hround : receiveRound react s with
  | inr s' =>
      exact ⟨s', rfl⟩
  | inl s' =>
      exfalso
      unfold receiveRound at hround
      dsimp only at hround
      split_ifs at hround with hheader hlimit henough
      split at hround
      · cases hround
      · rename_i f fs hhandler
        unfold headerSize at hheader
        rw [Buffer.wordAt_data (by omega)] at hlimit henough
        rw [Buffer.wordAt_data (by omega)] at hhandler
        have hsome : s.frontPacket s.recvBuff.unread = some (_, _) :=
          frontPacket_eq_some_iff.mpr ⟨by rw [Buffer.unread_length, headerSize]; omega, rfl, rfl,
            by omega, by rw [Buffer.unread_length]; exact henough, by rw [hhandler]; simp⟩
        rw [hfront] at hsome
        cases hsome

/-- A round with a packet at the front calls its handler and skips its length. -/
theorem receiveRound_of_some
    (hfront : s.frontPacket s.recvBuff.unread = some (n, msgId)) :
    ∃ hn : n ≤ s.recvBuff.size,
      receiveRound react s = .inl
        { handle react (s.unsetTimeout msgId) msgId (s.handlers msgId)
            (s.recvBuff.unread.drop headerSize) with
          recvBuff := s.recvBuff.skip n hn } := by
  obtain ⟨hheader, hlength, hid, hlimit, henough, hhandler⟩ := frontPacket_eq_some_iff.mp hfront
  rw [Buffer.unread_length] at hheader henough
  have hten : headerSize = 10 := rfl
  rw [← Buffer.wordAt_data (by omega)] at hlength hid
  obtain ⟨f, fs, hlist⟩ := List.exists_cons_of_ne_nil hhandler
  refine ⟨henough, ?_⟩
  unfold receiveRound
  simp only [if_neg (Nat.not_lt.mpr hheader), hlength, hid, hlist]
  rw [if_neg (Nat.not_lt.mpr hlimit), dif_pos henough]

/-- What the functions of a handler do to the rest of the session does not depend on its
receive buffer. -/
theorem invoke_toOpen
    (hopen : s.toOpen = t.toOpen)
    (stream : List UInt8)
    (position : Nat)
    (handler : List F) :
    (invoke react stream position handler s).1.toOpen =
      (invoke react stream position handler t).1.toOpen := by
  induction handler generalizing position s t with
  | nil =>
      exact hopen
  | cons f handler ih =>
      rw [invoke, invoke, hopen]
      dsimp only
      cases (react f stream position t.toOpen).thrown with
      | some e =>
          rfl
      | none =>
          apply ih
          rfl

theorem handle_toOpen
    (hopen : s.toOpen = t.toOpen)
    (msgId : UInt32)
    (handler : List F)
    (stream : List UInt8) :
    (handle react (s.unsetTimeout msgId) msgId handler stream).toOpen =
      (handle react (t.unsetTimeout msgId) msgId handler stream).toOpen := by
  have hunset : ((s.unsetTimeout msgId).log (.dispatch msgId stream)).toOpen =
      ((t.unsetTimeout msgId).log (.dispatch msgId stream)).toOpen := by
    simp only [unsetTimeout, log, hopen]
  have hhandle : ∀ s : Session F, (handle react s msgId handler stream).toOpen =
      (invoke react stream 0 handler (s.log (.dispatch msgId stream))).1.toOpen := by
    intro s
    unfold handle
    split <;> rename_i heq <;> rw [heq]
    rfl
  rw [hhandle, hhandle]
  exact invoke_toOpen react hunset stream 0 handler

theorem frontPacket_congr
    (hopen : s.toOpen = t.toOpen) :
    s.frontPacket bytes = t.frontPacket bytes := by
  have hhandlers : s.handlers = t.handlers := congrArg Open.handlers hopen
  simp only [frontPacket, hhandlers]

/-- The loop ends and advances if the packets are sized. The induction follows them. -/
theorem endsWith_of_sized
    (hsized : Sized react s bytes)
    (hopen : s.toOpen = t.toOpen)
    (hunread : t.recvBuff.unread = bytes) :
    WhileLoop.EndsWith (receiveRound react) Advances t := by
  induction hsized generalizing t with
  | stop hfront =>
      rw [frontPacket_congr hopen, ← hunread] at hfront
      obtain ⟨t', hround⟩ := receiveRound_of_none react hfront
      exact WhileLoop.EndsWith.of_done hround
  | @packet s bytes n msgId hfront hlength _ ih =>
      have hhandlers : s.handlers = t.handlers := congrArg Open.handlers hopen
      rw [frontPacket_congr hopen, ← hunread] at hfront
      obtain ⟨hn, hround⟩ := receiveRound_of_some react hfront
      refine (WhileLoop.endsWith_iff_of_continue hround).mpr ⟨⟨?_, ?_, rfl⟩, ?_⟩
      · exact Nat.add_le_add_left hlength _
      · exact Buffer.read_le_write _
      · refine ih ?_ ((Buffer.skip_unread _ _ hn).trans (by rw [hunread]))
        rw [hhandlers, ← hunread]
        exact handle_toOpen react hopen msgId _ _

/-- The packets are sized if the loop ends and advances. The induction is on the number of
bytes, which a sized packet makes smaller. -/
theorem sized_of_endsWith
    (hopen : s.toOpen = t.toOpen)
    (hunread : t.recvBuff.unread = bytes)
    (hends : WhileLoop.EndsWith (receiveRound react) Advances t) :
    Sized react s bytes := by
  induction hlen : bytes.length using Nat.strong_induction_on generalizing s t bytes with
  | _ length ih =>
      cases hfront : s.frontPacket bytes with
      | none =>
          exact .stop hfront
      | some front =>
          obtain ⟨n, msgId⟩ := front
          have hhandlers : s.handlers = t.handlers := congrArg Open.handlers hopen
          have henough := (frontPacket_eq_some_iff.mp hfront).2.2.2.2.1
          have htfront := hfront
          rw [frontPacket_congr hopen, ← hunread] at htfront
          obtain ⟨hn, hround⟩ := receiveRound_of_some react htfront
          obtain ⟨hadvance, hrest⟩ := (WhileLoop.endsWith_iff_of_continue hround).mp hends
          have hsized : headerSize ≤ n := Nat.add_le_add_iff_left.mp hadvance.forward
          have hpos : 0 < headerSize := by decide
          have hless : (bytes.drop n).length < length := by
            rw [List.length_drop]
            omega
          refine .packet hfront hsized (ih _ hless ?_ ?_ hrest rfl)
          · rw [hhandlers, ← hunread]
            exact handle_toOpen react hopen msgId _ _
          · exact (Buffer.skip_unread _ _ hn).trans (by rw [hunread])

end Rounds

/-- Whatever the buffer holds and the handlers are, OnReceive of a read that fits ends, and
its rounds advance, exactly if the packets that are handled have length fields of a header
at least. -/
theorem receive_loop_ends_iff
    (s : Session F) (read : Read)
    (hfits : s.recvBuff.size + read.1.length ≤ bufferSize) :
    ReceiveEnds react s (Buffer.received read) ↔
      Sized react s (s.recvBuff.unread ++ read.1) := by
  obtain ⟨buff, hadd, hunread⟩ := @Buffer.add_spec s.recvBuff (Buffer.received read) (by
    rw [Buffer.received_size]
    exact hfits)
  rw [Buffer.received_unread] at hunread
  have hrun : ∀ fuel, onReceive react fuel s (Buffer.received read) =
      WhileLoop.run (receiveRound react) fuel { s with recvBuff := buff } := by
    intro fuel
    simp only [onReceive, hadd]
  constructor
  · rintro ⟨hends, hadvances⟩
    simp only [hrun] at hends
    exact sized_of_endsWith (t := { s with recvBuff := buff }) react rfl hunread
      ⟨hends, hadvances buff hadd⟩
  · intro hsized
    obtain ⟨hends, hrounds⟩ := endsWith_of_sized (t := { s with recvBuff := buff }) react hsized
      rfl hunread
    refine ⟨by simpa only [hrun] using hends, ?_⟩
    intro buff' hadd'
    obtain rfl := Except.ok.inj (hadd.symm.trans hadd')
    exact hrounds

section Headers

/-- The header of a heartbeat answer, with a length field. -/
def header (length : UInt8) : Read :=
  ⟨[length, 0, 1, 0, 0, 0, 3, 0, 0, 0], (by decide : 10 ≤ bufferSize)⟩

theorem frontPacket_header
    {s : Session Unit} {length : UInt8}
    (hhandlers : s.handlers = listener.handlers)
    (hlength : length.toNat ≤ headerSize) :
    s.frontPacket (header length).1 = some (length.toNat, 3) := by
  rw [frontPacket_eq_some_iff, hhandlers]
  refine ⟨Nat.le_refl headerSize, ?_, rfl, ?_, hlength, List.cons_ne_nil _ _⟩
  · simp [header, wordAt, LittleEndian.decode]
  · exact hlength.trans (by decide)

/-- A packet with a body, one without, and the first bytes of a third one. -/
def packets : Read :=
  ⟨[12, 0, 1, 0, 0, 0, 3, 0, 0, 0, 7, 7, 10, 0, 2, 0, 0, 0, 4, 0, 0, 0, 14, 0, 3],
    (by decide : 25 ≤ bufferSize)⟩

/-- Two packets are handled, and the third one is not complete. -/
theorem receive_loop_ends_packets :
    ReceiveEnds ignore listener (Buffer.received packets) := by
  refine (receive_loop_ends_iff ignore listener packets (by decide)).mpr ?_
  have hfirst : listener.frontPacket packets.1 = some (12, 3) := by
    decide
  refine .packet hfirst (by decide) (@Sized.packet _ _ _ _ 10 4 ?_ (by decide) (.stop ?_))
  · decide
  · decide

/-- A packet whose length field is zero. Its handler is called without end. -/
theorem receive_loop_runs_on :
    listener.recvBuff.size + (header 0).1.length ≤ bufferSize ∧
      ∀ fuel, onReceive ignore fuel listener (Buffer.received (header 0)) = none := by
  refine ⟨by decide, ?_⟩
  intro fuel
  obtain ⟨buff, hunread, hrun⟩ := @onReceive_of_fits _ ignore listener (header 0) (by decide)
  rw [hrun]
  refine WhileLoop.run_eq_none
    (fun t => t.handlers = listener.handlers ∧ t.recvBuff.unread = (header 0).1) ?_ fuel
    ⟨rfl, hunread⟩
  rintro t ⟨hhandlers, hbytes⟩
  have hfront : t.frontPacket t.recvBuff.unread = some (0, 3) := by
    rw [hbytes]
    exact frontPacket_header hhandlers (by decide)
  obtain ⟨hn, hround⟩ := receiveRound_of_some ignore hfront
  refine ⟨_, hround, ?_, ?_⟩
  · rw [hhandlers]
    exact hhandlers
  · rw [Buffer.skip_unread, List.drop_zero]
    exact hbytes

end Headers

end Session
end Unity
end Gamnet
