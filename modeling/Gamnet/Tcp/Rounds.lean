import Gamnet.Tcp.Steady

/-!
# One round of the receive loop

`Holds w s c` says that the bytes c are queued in the packet of session s and
that its read cursor is at the front, so that the header accessors read the
first queued header. Under it a round is determined by c: it waits for more
bytes, it closes the link because of a malformed length, or it delivers the
first frame of c and establishes `Holds` for the bytes behind it.
-/

namespace Gamnet
namespace Tcp

section Rounds

variable {A : Type}

/-- The bytes c are queued at the front of the packet of session s. -/
structure Holds (w : World A) (s : SessionId) (c : List UInt8) : Prop where
  created : (w.sessions s).recvPacket < w.created
  unread : (w.recvPacket s).unread = c
  readCursor : (w.recvPacket s).readCursor = 0

namespace Holds

variable {w w' : World A} {s : SessionId} {c : List UInt8}

theorem size_eq
    (h : Holds w s c) :
    (w.recvPacket s).size = c.length := by
  rw [← Buffer.unread_length, h.unread]

theorem length_le
    (h : Holds w s c) :
    c.length ≤ Buffer.maxSize := by
  rw [← h.size_eq]
  exact (w.recvPacket s).size_le

/-- A handler leaves the queued bytes alone. -/
theorem steady
    (h : Holds w s c)
    (hsteady : Steady s w w') :
    Holds w' s c := by
  have hpacket := hsteady.recvPacket_eq h.created
  refine ⟨?_, ?_, ?_⟩
  · rw [hsteady.recvPacket]
    exact Nat.lt_of_lt_of_le h.created hsteady.created
  · rw [hpacket, h.unread]
  · rw [hpacket, h.readCursor]

/-- Logging leaves the queued bytes alone. -/
theorem log
    (h : Holds w s c)
    (e : Event) :
    Holds (w.log e) s c :=
  ⟨h.created, h.unread, h.readCursor⟩

/-- Bytes that fit are queued behind the bytes already queued. -/
theorem append
    {bytes : List UInt8}
    (h : Holds w s c)
    (hfits : c.length + bytes.length ≤ Buffer.maxSize) :
    ∃ packet, (w.recvPacket s).append bytes = .ok packet ∧
      Holds (w.setPacket (w.sessions s).recvPacket packet) s
        (c ++ bytes) := by
  rw [← h.size_eq] at hfits
  obtain ⟨packet, happend, hunread, hread⟩ := Packet.append_spec hfits
  refine ⟨packet, happend, h.created, ?_, ?_⟩
  · simp only [World.recvPacket, World.setPacket_packets,
      World.setPacket_sessions, Function.update_self]
    rw [hunread, h.unread]
  · simp only [World.recvPacket, World.setPacket_packets,
      World.setPacket_sessions, Function.update_self]
    exact hread h.readCursor

/-- Bytes that do not fit raise BufferOverflowError. -/
theorem append_error
    {bytes : List UInt8}
    (h : Holds w s c)
    (hlong : Buffer.maxSize < c.length + bytes.length) :
    ∃ e, (w.recvPacket s).append bytes = .error e := by
  rw [← h.size_eq] at hlong
  exact (Packet.append_error_iff _ bytes).2 hlong

/-- A complete header is read at the front. -/
theorem getLength_eq
    (h : Holds w s c)
    (hheader : headerSize ≤ c.length) :
    (w.recvPacket s).getLength = frameFormat.lengthOf c := by
  have hlen : headerSize ≤ (w.recvPacket s).unread.length := by
    rw [h.unread]
    exact hheader
  rw [Packet.getLength_eq h.readCursor hlen, h.unread]
  rfl

end Holds

variable (env : Env A)

/-- What the loop has checked when it comes to a delivery. -/
theorem holdsFrame_of_checks
    {p : Packet}
    (hheader : ¬ p.getLength < headerSize)
    (hwhole : ¬ p.size % 65536 < p.getLength) :
    p.HoldsFrame := by
  have hmod := Nat.mod_le p.size 65536
  exact ⟨Nat.le_of_not_lt hheader, by omega⟩

/-- A round ends the loop, closes the link, or delivers a frame; the loop goes
on when the delivery returns. -/
theorem recvRound_cases
    (cur : LinkId) (s : SessionId) (w : World A) :
    recvRound env cur s w = .inr (.ok w) ∨
    recvRound env cur s w = .inr (.ok (onError env cur w cur)) ∨
    (w.recvPacket s).HoldsFrame ∧
      ((∃ w₁, deliver env cur w s = .ok w₁ ∧
        recvRound env cur s w =
          advance env cur w₁ s (w.recvPacket s).getLength) ∨
      recvRound env cur s w = .inr (deliver env cur w s)) := by
  simp only [recvRound]
  split
  · exact Or.inl rfl
  · split
    · exact Or.inr (Or.inl rfl)
    · rename_i hheader
      split
      · exact Or.inr (Or.inl rfl)
      · split
        · exact Or.inl rfl
        · rename_i hwhole
          refine Or.inr (Or.inr ⟨holdsFrame_of_checks hheader hwhole, ?_⟩)
          cases deliver env cur w s with
          | ok w₁ =>
              exact Or.inl ⟨w₁, rfl, rfl⟩
          | throws w₁ =>
              exact Or.inr rfl
          | crash c w₁ =>
              exact Or.inr rfl

/-- A round ends the loop when no complete frame is queued. -/
theorem recvRound_of_waiting
    (cur : LinkId) {w : World A} {s : SessionId} {c : List UInt8}
    (h : Holds w s c)
    (hwait : frameFormat.Waiting c) :
    recvRound env cur s w = .inr (.ok w) := by
  have hsize := h.size_eq
  have hle := h.length_le
  by_cases hheader : headerSize ≤ c.length
  · have hlength := h.getLength_eq hheader
    obtain ⟨hshort, hlimit⟩ :
        c.length < frameFormat.lengthOf c ∧
          frameFormat.lengthOf c < Buffer.maxSize := by
      rcases hwait with hlt | hwait
      · exact absurd hheader (Nat.not_le_of_lt hlt)
      · exact hwait
    have hmod : c.length % 65536 = c.length :=
      Nat.mod_eq_of_lt (Nat.lt_of_le_of_lt hle (by decide))
    simp only [recvRound, hsize, hlength, hmod,
      (w.recvPacket s).capacity_eq]
    rw [if_neg (Nat.not_lt_of_le hheader), if_neg (by omega),
      if_neg (Nat.not_le_of_lt hlimit), if_pos hshort]
  · simp only [recvRound, hsize]
    rw [if_pos (Nat.lt_of_not_le hheader)]

section Front

variable {cur : LinkId} {w : World A} {s : SessionId} {f : Frame}
variable {rest : List UInt8} (h : Holds w s (f.bytes ++ rest))

include h

/-- A round delivers the frame at the front and drops its bytes. -/
theorem recvRound_of_frame :
    recvRound env cur s w =
      match deliver env cur w s with
      | .ok w => advance env cur w s f.length
      | r => .inr r := by
  have hsize := h.size_eq
  have hlength := getLength_of_front h.readCursor h.unread
  have hheader : headerSize ≤ f.length := f.headerSize_le
  have hlimit := f.length_lt
  have htotal : f.length ≤ (f.bytes ++ rest).length := by
    rw [List.length_append]
    exact Nat.le_add_right _ _
  have hmod : (f.bytes ++ rest).length % 65536 =
      (f.bytes ++ rest).length :=
    Nat.mod_eq_of_lt (Nat.lt_of_le_of_lt h.length_le (by decide))
  simp only [recvRound, hsize, hlength, hmod, (w.recvPacket s).capacity_eq]
  rw [if_neg (Nat.not_lt_of_le (Nat.le_trans hheader htotal)),
    if_neg (Nat.not_lt_of_le hheader), if_neg (Nat.not_le_of_lt hlimit)]
  refine (if_neg (Nat.not_lt_of_le htotal)).trans ?_
  cases deliver env cur w s with
  | ok w₁ =>
      rfl
  | throws w₁ =>
      rfl
  | crash c w₁ =>
      rfl

/-- The loop goes on behind the frame when its delivery returns. -/
theorem recvRound_of_frame_cases
    (cur : LinkId) :
    (∃ w₁, deliver env cur w s = .ok w₁ ∧
      recvRound env cur s w = advance env cur w₁ s f.length) ∨
    recvRound env cur s w = .inr (deliver env cur w s) := by
  have hround : recvRound env cur s w = _ := recvRound_of_frame env h
  cases hdeliver : deliver env cur w s with
  | ok w₁ =>
      rw [hdeliver] at hround
      exact Or.inl ⟨w₁, rfl, hround⟩
  | throws w₁ =>
      rw [hdeliver] at hround
      exact Or.inr hround
  | crash c w₁ =>
      rw [hdeliver] at hround
      exact Or.inr hround

/-- What is left behind the frame at the front. -/
theorem drop_of_front :
    (w.recvPacket s).unread.drop f.length = rest := by
  rw [h.unread]
  exact List.drop_left

end Front

/-- What the end of a round changes: the packet of session s. -/
structure Advanced (s : SessionId) (w w' : World A) : Prop where
  links : w'.links = w.links
  session : ∃ q, w'.sessions =
    Function.update w.sessions s { w.sessions s with recvPacket := q }
  created : w.created ≤ w'.created
  packets : ∀ p, p < w.created → p ≠ (w.sessions s).recvPacket →
    w'.packets p = w.packets p
  registry : w'.registry = w.registry
  trace : w'.trace = w.trace
  app : w'.app = w.app

namespace Advanced

variable {s : SessionId} {w w' : World A}

theorem link_eq
    (h : Advanced s w w')
    (t : SessionId) :
    (w'.sessions t).link = (w.sessions t).link := by
  obtain ⟨q, hq⟩ := h.session
  rw [hq]
  by_cases ht : t = s
  · subst ht
    rw [Function.update_self]
  · rw [Function.update_of_ne ht]

theorem msgSeq_eq
    (h : Advanced s w w')
    (t : SessionId) :
    (w'.sessions t).msgSeq = (w.sessions t).msgSeq := by
  obtain ⟨q, hq⟩ := h.session
  rw [hq]
  by_cases ht : t = s
  · subst ht
    rw [Function.update_self]
  · rw [Function.update_of_ne ht]

theorem session_of_ne
    (h : Advanced s w w')
    {t : SessionId}
    (ht : t ≠ s) :
    w'.sessions t = w.sessions t := by
  obtain ⟨q, hq⟩ := h.session
  rw [hq, Function.update_of_ne ht]

end Advanced

/-- What is left of a packet fits into a fresh one. -/
theorem append_ofStorage
    (data : Packet.Storage) (p : Packet) :
    ∃ q, (Packet.ofStorage data).append p.unread = .ok q := by
  have hfits : (Packet.ofStorage data).size + p.unread.length ≤
      Buffer.maxSize := by
    rw [Packet.ofStorage_size, Nat.zero_add, Buffer.unread_length]
    exact p.size_le
  obtain ⟨q, hq, _⟩ := Packet.append_spec hfits
  exact ⟨q, hq⟩

/-- The only end of the loop behind a delivery: no fresh packet is left. -/
theorem advance_inr
    {cur : LinkId} {w : World A} {s : SessionId} {n : Nat} {r : Outcome A}
    (h : advance env cur w s n = .inr r) :
    r = .ok (onError env cur
      (w.setPacket (w.sessions s).recvPacket
        ((w.packets (w.sessions s).recvPacket).remove n)) cur) := by
  simp only [advance] at h
  split at h
  · cases hpool : env.pool w.created with
    | none =>
        simp only [createPacket, World.setPacket, hpool] at h
        cases h
        rfl
    | some data =>
        obtain ⟨q, hq⟩ := append_ofStorage data
          ((w.packets (w.sessions s).recvPacket).remove n)
        simp only [createPacket, World.setPacket, hpool,
          Function.update_self, hq] at h
        cases h
  · split at h
    · cases h
    · cases h

theorem storeSeq_packetId
    (w : World A) (s t : SessionId) (n : Nat) :
    ((storeSeq env w s n).sessions t).recvPacket =
      (w.sessions t).recvPacket := by
  simp only [storeSeq]
  cases env.kind with
  | tcp =>
      by_cases ht : t = s
      · subst ht
        simp
      · simp [ht]
  | router =>
      rfl

theorem storeSeq_created
    (w : World A) (s : SessionId) (n : Nat) :
    (storeSeq env w s n).created = w.created := by
  simp only [storeSeq]
  cases env.kind with
  | tcp =>
      rfl
  | router =>
      rfl

theorem storeSeq_packets
    (w : World A) (s : SessionId) (n : Nat) :
    (storeSeq env w s n).packets = w.packets := by
  simp only [storeSeq]
  cases env.kind with
  | tcp =>
      rfl
  | router =>
      rfl

theorem storeSeq_trace
    (w : World A) (s : SessionId) (n : Nat) :
    (storeSeq env w s n).trace = w.trace := by
  simp only [storeSeq]
  cases env.kind with
  | tcp =>
      rfl
  | router =>
      rfl

/-- Overwriting the packet of session s. -/
theorem advanced_setPacket
    (s : SessionId) (w : World A) (x : Packet) :
    Advanced s w (w.setPacket (w.sessions s).recvPacket x) := by
  refine ⟨rfl, ⟨(w.sessions s).recvPacket, ?_⟩, Nat.le_refl _, ?_,
    rfl, rfl, rfl⟩
  · exact (Function.update_eq_self s w.sessions).symm
  · intro p _ hne
    rw [World.setPacket_packets, Function.update_of_ne hne]

section Advance

variable (cur : LinkId) {w : World A} {s : SessionId} {n : Nat}
variable {rest : List UInt8}
variable (hdrop : (w.recvPacket s).unread.drop n = rest)

include hdrop

theorem remove_size_of_drop :
    ((w.recvPacket s).remove n).size = rest.length := by
  rw [← Buffer.unread_length, Packet.remove_unread, hdrop]

/-- The last frame of the queued bytes leaves an empty packet. -/
theorem advance_last
    (hexists : (w.sessions s).recvPacket < w.created)
    (hrest : rest = []) :
    ∃ w', advance env cur w s n = .inl w' ∧
      Holds w' s [] ∧
      Advanced s w w' ∧
      (w'.sessions s).recvPacket = (w.sessions s).recvPacket ∧
      w'.created = w.created := by
  have hunread : ((w.recvPacket s).remove n).unread = [] := by
    rw [Packet.remove_unread, hdrop, hrest]
  have hsize := remove_size_of_drop hdrop
  have hempty : ¬ 0 < ((w.recvPacket s).remove n).size := by
    rw [hsize, hrest]
    exact Nat.lt_irrefl 0
  simp only [World.recvPacket] at hempty hunread
  simp only [advance, World.setPacket_packets, Function.update_self]
  rw [if_neg hempty]
  cases env.kind with
  | tcp =>
      refine ⟨_, rfl, ⟨hexists, ?_, ?_⟩, advanced_setPacket s w _, rfl, rfl⟩
      · simp only [World.recvPacket, World.setPacket_packets,
          World.setPacket_sessions, Function.update_self]
        exact hunread
      · simp only [World.recvPacket, World.setPacket_packets,
          World.setPacket_sessions, Function.update_self]
        exact Packet.readCursor_of_unread_nil hunread
  | router =>
      refine ⟨_, rfl, ⟨hexists, ?_, ?_⟩, ?_, rfl, rfl⟩
      · simp only [World.recvPacket, World.setPacket_packets,
          World.setPacket_sessions, Function.update_self]
        exact (Buffer.unread_eq_nil_iff _).2 rfl
      · simp only [World.recvPacket, World.setPacket_packets,
          World.setPacket_sessions, Function.update_self]
        rfl
      · have hset := advanced_setPacket s w
          ((w.packets (w.sessions s).recvPacket).remove n).clear
        simpa [World.setPacket] using hset

/-- Behind a frame that is not the last one, a fresh packet receives the
remaining bytes. -/
theorem advance_more
    {data : Packet.Storage}
    (hrest : rest ≠ [])
    (hpool : env.pool w.created = some data) :
    ∃ w', advance env cur w s n = .inl w' ∧
      Holds w' s rest ∧
      Advanced s w w' ∧
      (w'.sessions s).recvPacket = w.created ∧
      w'.created = w.created + 1 := by
  have hunread : ((w.recvPacket s).remove n).unread = rest := by
    rw [Packet.remove_unread, hdrop]
  have hsize := remove_size_of_drop hdrop
  have hpos : 0 < ((w.recvPacket s).remove n).size := by
    rw [hsize]
    exact List.length_pos_of_ne_nil hrest
  have hfits : (Packet.ofStorage data).size + rest.length ≤
      Buffer.maxSize := by
    have hle := ((w.recvPacket s).remove n).size_le
    rw [hsize] at hle
    rw [Packet.ofStorage_size, Nat.zero_add]
    exact hle
  obtain ⟨q, hq, hqunread, hqread⟩ := Packet.append_spec hfits
  rw [Packet.ofStorage_unread, List.nil_append] at hqunread
  simp only [World.recvPacket] at hpos hunread
  simp only [advance, World.setPacket_packets, Function.update_self]
  rw [if_pos hpos]
  simp only [createPacket, World.setPacket, hpool, Function.update_self,
    hunread, hq]
  refine ⟨_, rfl, ⟨?_, ?_, ?_⟩, ⟨rfl, ⟨w.created, rfl⟩, Nat.le_succ _,
    ?_, rfl, rfl, rfl⟩, ?_, rfl⟩
  · simp [World.setSession]
  · simp [World.setSession, World.recvPacket, hqunread]
  · simp [World.setSession, World.recvPacket, hqread]
  · intro p hp hps
    have hpq : p ≠ w.created := Nat.ne_of_lt hp
    simp [World.setSession, hps, hpq]
  · simp [World.setSession]

/-- Behind a frame that is not the last one, the link is closed when no packet
can be created. -/
theorem advance_exhausted
    (hrest : rest ≠ [])
    (hpool : env.pool w.created = none) :
    ∃ w', advance env cur w s n =
        .inr (.ok (onError env cur w' cur)) ∧
      Advanced s w w' := by
  have hpos : 0 < ((w.recvPacket s).remove n).size := by
    rw [remove_size_of_drop hdrop]
    exact List.length_pos_of_ne_nil hrest
  simp only [World.recvPacket] at hpos
  simp only [advance, World.setPacket_packets, Function.update_self]
  rw [if_pos hpos]
  simp only [createPacket, World.setPacket, hpool]
  exact ⟨_, rfl, advanced_setPacket s w _⟩

end Advance

end Rounds

section Deliveries

variable {A : Type} (env : Env A)

/-- What a delivery adds to the trace. -/
theorem trace_deliver
    (cur : LinkId) (w : World A) (s : SessionId) :
    ∃ closed : List LinkId, (deliver env cur w s).world.trace =
      closed.map Event.close ++
        ((if passes env w s (w.recvPacket s) then [.dispatch s (w.recvPacket s)] else []) ++
          .examine s (w.recvPacket s) :: w.trace) := by
  by_cases hpasses : passes env w s (w.recvPacket s) = true
  · rw [deliver_of_passes env hpasses, if_pos hpasses]
    obtain ⟨closed, htrace, _⟩ := (steady_dispatch env s cur
      (w.log (.examine s (w.recvPacket s))) (w.recvPacket s)).trace
    exact ⟨closed, Outcome.world_bind (R := fun w₁ => w₁.trace = _)
      (fun w₁ hw₁ => (storeSeq_trace env w₁ s _).trans hw₁) htrace⟩
  · rw [deliver_of_not_passes env hpasses, if_neg hpasses]
    exact ⟨[], rfl⟩

/-- A delivery that returns leaves the packet of the session alone. -/
theorem deliver_recvPacket
    {w w₁ : World A} {l : LinkId} {s : SessionId}
    (hexists : (w.sessions s).recvPacket < w.created)
    (hdeliver : deliver env l w s = .ok w₁) :
    (w₁.sessions s).recvPacket < w₁.created ∧
      w₁.recvPacket s = w.recvPacket s := by
  by_cases hpasses : passes env w s (w.recvPacket s) = true
  · obtain ⟨w₂, hdispatch, rfl⟩ := deliver_ok_of_passes env hpasses hdeliver
    have hsteady := steady_dispatch env s l
      (w.log (.examine s (w.recvPacket s))) (w.recvPacket s)
    rw [hdispatch] at hsteady
    refine ⟨?_, ?_⟩
    · rw [storeSeq_packetId, storeSeq_created, ← Outcome.world_ok w₂,
        hsteady.recvPacket]
      exact Nat.lt_of_lt_of_le hexists hsteady.created
    · rw [World.recvPacket, storeSeq_packetId, storeSeq_packets]
      exact hsteady.recvPacket_eq hexists
  · rw [deliver_of_not_passes env hpasses] at hdeliver
    cases hdeliver
    exact ⟨hexists, rfl⟩

/-- A delivery that returns leaves the queued bytes alone. -/
theorem holds_deliver
    {w w₁ : World A} {l : LinkId} {s : SessionId} {c : List UInt8}
    (h : Holds w s c)
    (hdeliver : deliver env l w s = .ok w₁) :
    Holds w₁ s c := by
  obtain ⟨hexists, hpacket⟩ := deliver_recvPacket env h.created hdeliver
  refine ⟨hexists, ?_, ?_⟩
  · rw [hpacket]
    exact h.unread
  · rw [hpacket]
    exact h.readCursor

/-- The loop on one frame and nothing behind it: once the frame is delivered,
the packet is empty. -/
theorem recvLoop_single
    {w w₁ : World A} {l : LinkId} {s : SessionId} {f : Frame}
    (h : Holds w s (f.bytes ++ []))
    (hdeliver : deliver env l w s = .ok w₁) :
    ∃ w₂, recvLoop env l s w = .ok w₂ ∧
      Holds w₂ s [] ∧
      Advanced s w₁ w₂ ∧
      (w₂.sessions s).recvPacket = (w₁.sessions s).recvPacket := by
  have hholds := holds_deliver env h hdeliver
  obtain ⟨w₂, hadvance, hholds₂, hadvanced, hpacket, _⟩ :=
    advance_last env l (drop_of_front hholds) hholds.created rfl
  have hround₁ : recvRound env l s w = .inl w₂ := by
    rw [recvRound_of_frame env h, hdeliver]
    exact hadvance
  have hround₂ := recvRound_of_waiting env l hholds₂ frameFormat.waiting_nil
  have hsize : 0 < (w.recvPacket s).size := by
    rw [h.size_eq, List.append_nil]
    exact f.length_pos
  obtain ⟨n, hn⟩ := Nat.exists_eq_succ_of_ne_zero (Nat.ne_of_gt hsize)
  refine ⟨w₂, ?_, hholds₂, hadvanced, hpacket⟩
  simp only [recvLoop, hn, WhileLoop.run_continue hround₁,
    WhileLoop.run_done hround₂]

end Deliveries

end Tcp
end Gamnet
