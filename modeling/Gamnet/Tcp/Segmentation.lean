import Gamnet.Tcp.Rounds
import Gamnet.Tcp.Traffic

/-!
# Segmentation independence

With handlers that keep the attachment in the worlds of the run and an inexhaustible packet
pool the receive loop examines exactly the frames of the byte stream, however the stream
is cut into reads. `Receiving` is the invariant between two rounds, `Progress` says which frames a
piece of a run has examined and dispatched.

The results are proved for one round, for one call, and by induction on the
reads for one connection.
-/

namespace Gamnet
namespace Tcp

section Progress

variable {A : Type}

/-- Session s is attached to link l and the bytes c are queued for it. -/
structure Receiving
    (w : World A) (l : LinkId) (s : SessionId) (c : List UInt8) : Prop
    extends Holds w s c, Attached w l s

namespace Receiving

variable {w w' : World A} {l : LinkId} {s : SessionId} {c : List UInt8}

theorem log
    (h : Receiving w l s c)
    (e : Event) :
    Receiving (w.log e) l s c :=
  ⟨h.toHolds.log e, h.session, h.link⟩

/-- Overwriting fields of the session other than its link and packet. -/
theorem setSession
    (h : Receiving w l s c)
    (x : Session)
    (hlink : x.link = (w.sessions s).link)
    (hpacket : x.recvPacket = (w.sessions s).recvPacket) :
    Receiving (w.setSession s x) l s c := by
  have hrecv : (w.setSession s x).recvPacket s = w.recvPacket s := by
    simp only [World.recvPacket, World.setSession_sessions,
      World.setSession_packets, Function.update_self, hpacket]
  refine ⟨⟨?_, ?_, ?_⟩, h.session, ?_⟩
  · rw [World.setSession_sessions, Function.update_self, hpacket]
    exact h.created
  · rw [hrecv, h.unread]
  · rw [hrecv, h.readCursor]
  · rw [World.setSession_sessions, Function.update_self, hlink, h.link]

/-- The end of a round keeps the attachment. -/
theorem advanced
    {rest : List UInt8}
    (h : Receiving w l s c)
    (hadvanced : Advanced s w w')
    (hholds : Holds w' s rest) :
    Receiving w' l s rest := by
  refine ⟨hholds, ?_, ?_⟩
  · rw [hadvanced.links, h.session]
  · rw [hadvanced.link_eq, h.link]

end Receiving

/-- Between two states the frames fs were examined for session s, and those
that pass the sequence number test were dispatched to it. -/
structure Progress
    (kind : Kind) (s : SessionId) (w w' : World A) (fs : List Frame) :
    Prop where
  examined : ∃ ps, w'.examined s = w.examined s ++ ps ∧
    List.Forall₂ Shows ps fs
  dispatched : ∃ ps, w'.dispatched s = w.dispatched s ++ ps ∧
    List.Forall₂ Shows ps (accepted kind (w.sessions s).msgSeq fs)
  msgSeq : (w'.sessions s).msgSeq = lastSeq kind (w.sessions s).msgSeq fs
  others : ∀ t, t ≠ s → w'.dispatched t = w.dispatched t

namespace Progress

variable {kind : Kind} {s : SessionId} {w w₁ w' : World A}
variable {fs gs : List Frame}

/-- Nothing was examined while the trace stayed the same. -/
theorem of_trace_eq
    (htrace : w'.trace = w.trace)
    (hseq : (w'.sessions s).msgSeq = (w.sessions s).msgSeq) :
    Progress kind s w w' [] := by
  refine ⟨⟨[], ?_, List.Forall₂.nil⟩, ⟨[], ?_, List.Forall₂.nil⟩, hseq, ?_⟩
  · rw [World.examined_of_trace_eq htrace, List.append_nil]
  · rw [World.dispatched_of_trace_eq htrace, List.append_nil]
  · intro t _
    exact World.dispatched_of_trace_eq htrace t

theorem trans
    (h₁ : Progress kind s w w₁ fs)
    (h₂ : Progress kind s w₁ w' gs) :
    Progress kind s w w' (fs ++ gs) := by
  obtain ⟨ps₁, hps₁, hshows₁⟩ := h₁.examined
  obtain ⟨ps₂, hps₂, hshows₂⟩ := h₂.examined
  obtain ⟨ds₁, hds₁, hsent₁⟩ := h₁.dispatched
  obtain ⟨ds₂, hds₂, hsent₂⟩ := h₂.dispatched
  refine ⟨⟨ps₁ ++ ps₂, ?_, ?_⟩, ⟨ds₁ ++ ds₂, ?_, ?_⟩, ?_, ?_⟩
  · rw [hps₂, hps₁, List.append_assoc]
  · exact List.rel_append hshows₁ hshows₂
  · rw [hds₂, hds₁, List.append_assoc]
  · rw [accepted_append, ← h₁.msgSeq]
    exact List.rel_append hsent₁ hsent₂
  · rw [h₂.msgSeq, h₁.msgSeq, lastSeq_append]
  · intro t ht
    rw [h₂.others t ht, h₁.others t ht]

end Progress

end Progress

section Loop

variable {A : Type} (env : Env A)

/-- Every frame that passes the sequence number test has a handler that keeps
the attachment in the worlds of P. -/
def KeepingFrames (P : World A → Prop)
    (l : LinkId) (s : SessionId) (msgSeq : Nat) (fs : List Frame) : Prop :=
  ∀ f ∈ accepted env.kind msgSeq fs, env.KeepsOn P l s f.id

/-- P holds in front of each round of the loop. -/
def LoopsWithin (P : World A → Prop) (l : LinkId) (s : SessionId) (w : World A) : Prop :=
  ∀ w', WhileLoop.Reaches (recvRound env l s) w w' → P w'

/-- P holds in front of each round of the calls for these reads. -/
def RunsWithin (P : World A → Prop) (l : LinkId) (s : SessionId) :
    World A → List (List UInt8) → Prop
  | _, [] => True
  | w, bytes :: reads =>
      (∀ packet, ((touch env w s).recvPacket s).append bytes = .ok packet →
        LoopsWithin env P l s
          ((touch env w s).setPacket ((touch env w s).sessions s).recvPacket packet)) ∧
      ∀ w₁, onRecvMsg env l w bytes = .ok w₁ → RunsWithin P l s w₁ reads

/-- Every run is within all worlds. -/
theorem runsWithin_true
    (l : LinkId) (s : SessionId) (w : World A) (reads : List (List UInt8)) :
    RunsWithin env (fun _ => True) l s w reads := by
  induction reads generalizing w with
  | nil =>
      trivial
  | cons bytes reads ih =>
      exact ⟨fun _ _ _ _ => trivial, fun w₁ _ => ih w₁⟩

variable {P : World A → Prop}

/-- The rounds behind the first one. -/
theorem LoopsWithin.next
    {l : LinkId} {s : SessionId} {w w' : World A}
    (h : LoopsWithin env P l s w)
    (hround : recvRound env l s w = .inl w') :
    LoopsWithin env P l s w' :=
  fun w₁ hreaches => h w₁ (.round hround hreaches)

/-- The frames behind the first one. -/
theorem KeepingFrames.tail
    {l : LinkId} {s : SessionId} {msgSeq : Nat} {f : Frame}
    {fs : List Frame}
    (h : KeepingFrames env P l s msgSeq (f :: fs)) :
    KeepingFrames env P l s (env.kind.nextSeq msgSeq f) fs := by
  intro g hg
  apply h g
  rw [accepted]
  split
  · exact List.mem_cons_of_mem f hg
  · exact hg

/-- The first frame, if it passes the test. -/
theorem KeepingFrames.head
    {l : LinkId} {s : SessionId} {msgSeq : Nat} {f : Frame}
    {fs : List Frame}
    (h : KeepingFrames env P l s msgSeq (f :: fs))
    (haccepts : env.kind.accepts msgSeq f = true) :
    env.KeepsOn P l s f.id := by
  apply h f
  rw [accepted, if_pos haccepts]
  exact List.mem_cons_self

section Delivery

variable {l : LinkId} {s : SessionId} {w : World A} {f : Frame}
variable {rest : List UInt8}

/-- The sequence number stored behind the dispatcher. -/
theorem receiving_storeSeq
    {c : List UInt8}
    (h : Receiving w l s c)
    (n : Nat) :
    Receiving (storeSeq env w s n) l s c := by
  simp only [storeSeq]
  cases env.kind with
  | tcp =>
      exact h.setSession _ rfl rfl
  | router =>
      exact h

/-- Storing the number of a frame that passed the test. -/
theorem storeSeq_msgSeq
    (w : World A) (s : SessionId) (f : Frame)
    (haccepts : env.kind.accepts (w.sessions s).msgSeq f = true) :
    ((storeSeq env w s f.seq).sessions s).msgSeq =
      env.kind.nextSeq (w.sessions s).msgSeq f := by
  simp only [Kind.accepts] at haccepts
  simp only [storeSeq, Kind.nextSeq]
  cases hkind : env.kind with
  | tcp =>
      rw [hkind] at haccepts
      rw [if_pos (of_decide_eq_true haccepts), World.setSession_sessions,
        Function.update_self]
  | router =>
      rfl

/-- Discarding a frame keeps the number. -/
theorem nextSeq_of_not_accepts
    {kind : Kind} {msgSeq : Nat} {f : Frame}
    (h : kind.accepts msgSeq f = false) :
    kind.nextSeq msgSeq f = msgSeq := by
  cases kind with
  | tcp =>
      exact if_neg (of_decide_eq_false h)
  | router =>
      rfl

/-- One frame is examined, and dispatched if it passes the test. -/
theorem deliver_keeps
    (h : Receiving w l s (f.bytes ++ rest))
    (hw : P w)
    (hkeeps : env.kind.accepts (w.sessions s).msgSeq f = true →
      env.KeepsOn P l s f.id) :
    ∃ w', deliver env l w s = .ok w' ∧
      Receiving w' l s (f.bytes ++ rest) ∧
      Progress env.kind s w w' [f] := by
  have hpasses := passes_of_front env h.toHolds
  have hshows := shows_of_front h.readCursor h.unread
  have hpasses' :
      passes env (w.log (.examine s (w.recvPacket s))) s (w.recvPacket s) =
        env.kind.accepts (w.sessions s).msgSeq f := hpasses
  simp only [deliver, hpasses']
  cases haccepts : env.kind.accepts (w.sessions s).msgSeq f with
  | false =>
      refine ⟨_, rfl, h.log _,
        ⟨[w.recvPacket s], ?_, ?_⟩, ⟨[], ?_, ?_⟩, ?_, fun _ _ => rfl⟩
      · exact World.examined_log_examine w s _
      · exact List.Forall₂.cons hshows List.Forall₂.nil
      · rw [List.append_nil, World.dispatched_log_examine]
      · simp only [accepted, haccepts, Bool.false_eq_true, if_false]
        exact List.Forall₂.nil
      · rw [lastSeq_cons, lastSeq_nil, nextSeq_of_not_accepts haccepts]
        rfl
  | true =>
      have hid : (w.recvPacket s).getID = f.id := hshows.getID
      have hon : env.KeepsOn P l s (w.recvPacket s).getID := by
        rw [hid]
        exact hkeeps haccepts
      obtain ⟨w₁, hdispatch, hattached⟩ := dispatch_of_keepsOn env hon hw h.toAttached
      have hsteady := steady_dispatch env s l
        (w.log (.examine s (w.recvPacket s))) (w.recvPacket s)
      rw [hdispatch] at hsteady
      have hreceiving : Receiving w₁ l s (f.bytes ++ rest) :=
        ⟨((h.toHolds.log _).log _).steady hsteady, hattached⟩
      have hseq : (w₁.sessions s).msgSeq = (w.sessions s).msgSeq :=
        hsteady.msgSeq s
      simp only [if_true, hdispatch, Outcome.bind_ok, hshows.getSEQ]
      refine ⟨_, rfl, receiving_storeSeq env hreceiving f.seq,
        ⟨[w.recvPacket s], ?_, ?_⟩, ⟨[w.recvPacket s], ?_, ?_⟩, ?_, ?_⟩
      · rw [World.examined_of_trace_eq (storeSeq_trace env w₁ s f.seq)]
        exact (hsteady.examined_eq s).trans (World.examined_log_examine w s _)
      · exact List.Forall₂.cons hshows List.Forall₂.nil
      · rw [World.dispatched_of_trace_eq (storeSeq_trace env w₁ s f.seq)]
        refine (hsteady.dispatched_eq s).trans ?_
        rw [World.dispatched_log_dispatch, World.dispatched_log_examine]
      · simp only [accepted, haccepts, if_true]
        exact List.Forall₂.cons hshows List.Forall₂.nil
      · rw [lastSeq_cons, lastSeq_nil, ← hseq]
        apply storeSeq_msgSeq
        rw [hseq, haccepts]
      · intro t ht
        rw [World.dispatched_of_trace_eq (storeSeq_trace env w₁ s f.seq)]
        refine (hsteady.dispatched_eq t).trans ?_
        rw [World.dispatched_log_dispatch_of_ne _ _ ht,
          World.dispatched_log_examine]

variable (hpool : ∀ n, (env.pool n).isSome)

include hpool

/-- One round takes one frame off the queued bytes. -/
theorem recvRound_keeps
    (h : Receiving w l s (f.bytes ++ rest))
    (hw : P w)
    (hkeeps : env.kind.accepts (w.sessions s).msgSeq f = true →
      env.KeepsOn P l s f.id) :
    ∃ w', recvRound env l s w = .inl w' ∧
      Receiving w' l s rest ∧
      Progress env.kind s w w' [f] := by
  obtain ⟨w₁, hdeliver, h₁, hprogress⟩ := deliver_keeps env h hw hkeeps
  rw [recvRound_of_frame env h.toHolds, hdeliver]
  have hdrop := drop_of_front h₁.toHolds
  cases rest with
  | nil =>
      obtain ⟨w', hadvance, hholds, hadvanced, _⟩ :=
        advance_last env l hdrop h₁.created rfl
      refine ⟨w', hadvance, h₁.advanced hadvanced hholds, ?_⟩
      exact hprogress.trans
        (Progress.of_trace_eq hadvanced.trace (hadvanced.msgSeq_eq s))
  | cons b rest =>
      obtain ⟨data, hdata⟩ := Option.isSome_iff_exists.mp (hpool w₁.created)
      obtain ⟨w', hadvance, hholds, hadvanced, _⟩ :=
        advance_more env l hdrop
          (List.cons_ne_nil b rest) hdata
      refine ⟨w', hadvance, h₁.advanced hadvanced hholds, ?_⟩
      exact hprogress.trans
        (Progress.of_trace_eq hadvanced.trace (hadvanced.msgSeq_eq s))

/-- The loop takes every complete frame off the queued bytes and stops. -/
theorem run_keeps
    {fs : List Frame} {t : List UInt8} {n : Nat}
    (h : Receiving w l s (stream fs ++ t))
    (hwait : frameFormat.Waiting t)
    (hwithin : LoopsWithin env P l s w)
    (hkeeps : KeepingFrames env P l s (w.sessions s).msgSeq fs)
    (hn : fs.length < n) :
    ∃ w', WhileLoop.run (recvRound env l s) n w = some (.ok w') ∧
      Receiving w' l s t ∧
      Progress env.kind s w w' fs := by
  induction fs generalizing w n with
  | nil =>
      cases n with
      | zero =>
          exact absurd hn (Nat.not_lt_zero _)
      | succ n =>
          have h' : Receiving w l s t := h
          have hround := recvRound_of_waiting env l h'.toHolds hwait
          exact ⟨w, WhileLoop.run_done hround n, h',
            Progress.of_trace_eq rfl rfl⟩
  | cons f fs ih =>
      cases n with
      | zero =>
          exact absurd hn (Nat.not_lt_zero _)
      | succ n =>
          rw [stream_cons, List.append_assoc] at h
          obtain ⟨w₁, hround, h₁, hprogress₁⟩ :=
            recvRound_keeps env hpool h (hwithin w (.refl w)) (hkeeps.head env)
          have hseq : (w₁.sessions s).msgSeq =
              env.kind.nextSeq (w.sessions s).msgSeq f := hprogress₁.msgSeq
          have hkeeps₁ : KeepingFrames env P l s (w₁.sessions s).msgSeq fs := by
            rw [hseq]
            exact hkeeps.tail env
          obtain ⟨w', hrun, h', hprogress'⟩ :=
            ih h₁ (hwithin.next env hround) hkeeps₁ (Nat.lt_of_succ_lt_succ hn)
          refine ⟨w', ?_, h', hprogress₁.trans hprogress'⟩
          rw [WhileLoop.run_continue hround, hrun]

end Delivery

section Calls

variable {l : LinkId} {s : SessionId} {w : World A}

/-- Storing the time of the read. -/
theorem receiving_touch
    {c : List UInt8}
    (h : Receiving w l s c) :
    Receiving (touch env w s) l s c := by
  simp only [touch]
  cases env.kind with
  | tcp =>
      exact h.setSession _ rfl rfl
  | router =>
      exact h

theorem touch_trace
    (w : World A) (s : SessionId) :
    (touch env w s).trace = w.trace := by
  simp only [touch]
  cases env.kind with
  | tcp =>
      rfl
  | router =>
      rfl

theorem touch_msgSeq
    (w : World A) (s t : SessionId) :
    ((touch env w s).sessions t).msgSeq = (w.sessions t).msgSeq := by
  simp only [touch]
  cases env.kind with
  | tcp =>
      by_cases ht : t = s
      · subst ht
        rw [World.setSession_sessions, Function.update_self]
      · rw [World.setSession_sessions, Function.update_of_ne ht]
  | router =>
      rfl

/-- A read that does not fit raises BufferOverflowError. -/
theorem onRecvMsg_overflow
    {u bytes : List UInt8}
    (h : Receiving w l s u)
    (hlong : Buffer.maxSize < u.length + bytes.length) :
    ∃ e w', onRecvMsg env l w bytes = .crash (.bufferOverflow e) w' := by
  obtain ⟨e, he⟩ := (receiving_touch env h).toHolds.append_error hlong
  simp only [World.recvPacket] at he
  exact ⟨e, touch env w s, by simp only [onRecvMsg, h.session, he]⟩

/-- A connection in front of its next read: the bytes u of an unfinished frame
are queued, and together with the reads to come they carry the frames fs and the
unfinished frame t, and P holds in the worlds of their rounds. -/
structure Connected (P : World A → Prop)
    (w : World A) (l : LinkId) (s : SessionId) (u : List UInt8)
    (reads : List (List UInt8)) (fs : List Frame) (t : List UInt8) :
    Prop where
  receiving : Receiving w l s u
  stream_eq : u ++ reads.flatten = stream fs ++ t
  boundary : Framing.unfinished (fs.map Frame.length) u.length = u.length
  within : RunsWithin env P l s w reads
  keeping : KeepingFrames env P l s (w.sessions s).msgSeq fs

/-- A connection whose reads have all been made has only the unfinished frame
left. -/
theorem Connected.finished
    {u t : List UInt8} {fs : List Frame}
    (h : Connected env P w l s u [] fs t) :
    fs = [] ∧ u = t := by
  have hstream := h.stream_eq
  rw [List.flatten_nil, List.append_nil] at hstream
  cases fs with
  | nil =>
      rw [stream_nil, List.nil_append] at hstream
      exact ⟨rfl, hstream⟩
  | cons f fs =>
      have hle : f.length ≤ u.length := by
        rw [hstream, stream_cons, List.append_assoc, List.length_append]
        exact Nat.le_add_right _ _
      have hlt := @Framing.unfinished_cons_lt _ (fs.map Frame.length) _
        f.length_pos hle
      have hboundary := h.boundary
      rw [List.map_cons] at hboundary
      exact absurd hboundary (Nat.ne_of_lt hlt)

variable (hpool : ∀ n, (env.pool n).isSome)

include hpool

/-- One call examines the frames that the read completes and keeps the
remainder. -/
theorem onRecvMsg_keeps
    {u bytes t : List UInt8} {fs : List Frame}
    (h : Receiving w l s u)
    (hfits : u.length + bytes.length ≤ Buffer.maxSize)
    (hstream : u ++ bytes = stream fs ++ t)
    (hwait : frameFormat.Waiting t)
    (hwithin : ∀ packet, ((touch env w s).recvPacket s).append bytes = .ok packet →
      LoopsWithin env P l s
        ((touch env w s).setPacket ((touch env w s).sessions s).recvPacket packet))
    (hkeeps : KeepingFrames env P l s (w.sessions s).msgSeq fs) :
    ∃ w', onRecvMsg env l w bytes = .ok w' ∧
      Receiving w' l s t ∧
      Progress env.kind s w w' fs := by
  have htouch := receiving_touch env h
  obtain ⟨packet, happend, hholds⟩ := htouch.toHolds.append hfits
  have hstart : Receiving
      ((touch env w s).setPacket
        ((touch env w s).sessions s).recvPacket packet) l s
      (stream fs ++ t) := by
    rw [← hstream]
    exact ⟨hholds, htouch.session, htouch.link⟩
  have hfuel : fs.length <
      (((touch env w s).setPacket
        ((touch env w s).sessions s).recvPacket packet).recvPacket s).size
        + 1 := by
    rw [hstart.size_eq, List.length_append]
    exact Nat.lt_succ_of_le (Nat.le_trans (length_le_stream fs)
      (Nat.le_add_right _ _))
  have hkeeps' : KeepingFrames env P l s
      ((touch env w s).sessions s).msgSeq fs := by
    rw [touch_msgSeq]
    exact hkeeps
  obtain ⟨w', hrun, hreceiving, hprogress⟩ :=
    run_keeps env hpool hstart hwait (hwithin packet happend) hkeeps' hfuel
  refine ⟨w', ?_, hreceiving, ?_⟩
  · simp only [onRecvMsg_of_append env h.session happend, recvLoop, hrun]
  · have hbegin : Progress env.kind s w
        ((touch env w s).setPacket
          ((touch env w s).sessions s).recvPacket packet) [] :=
      Progress.of_trace_eq (touch_trace env w s) (touch_msgSeq env w s s)
    exact hbegin.trans hprogress

/-- One read of a connection completes some frames; these are dropped from the
stream together with its bytes. -/
theorem Connected.read
    {u bytes t : List UInt8} {fs : List Frame} {reads : List (List UInt8)}
    (h : Connected env P w l s u (bytes :: reads) fs t)
    (hinit : ∀ k, frameFormat.Waiting (t.take k))
    (hfits : u.length + bytes.length ≤ Buffer.maxSize) :
    ∃ w₁ v k, onRecvMsg env l w bytes = .ok w₁ ∧
      Progress env.kind s w w₁ (fs.take k) ∧
      Connected env P w₁ l s v reads (fs.drop k) t ∧
      (Framing.FitsIn Buffer.maxSize (fs.map Frame.length)
          (u.length + bytes.length) (reads.map List.length) ↔
        Framing.FitsIn Buffer.maxSize ((fs.drop k).map Frame.length)
          v.length (reads.map List.length)) := by
  have hstream := h.stream_eq
  rw [List.flatten_cons] at hstream
  obtain ⟨k, v, hchunk, hrest, hwait, hboundary, hsum⟩ :=
    exists_next_frames hinit hstream
  have hsplit := accepted_append env.kind (w.sessions s).msgSeq
    (fs.take k) (fs.drop k)
  rw [List.take_append_drop] at hsplit
  have hfirst : KeepingFrames env P l s (w.sessions s).msgSeq (fs.take k) := by
    intro f hf
    apply h.keeping f
    rw [hsplit]
    exact List.mem_append_left _ hf
  obtain ⟨w₁, hcall, h₁, hprogress⟩ :=
    onRecvMsg_keeps env hpool h.receiving hfits hchunk hwait h.within.1 hfirst
  have hsecond : KeepingFrames env P l s (w₁.sessions s).msgSeq
      (fs.drop k) := by
    intro f hf
    apply h.keeping f
    rw [hprogress.msgSeq] at hf
    rw [hsplit]
    exact List.mem_append_right _ hf
  refine ⟨w₁, v, k, hcall, hprogress,
    ⟨h₁, hrest, hboundary, h.within.2 w₁ hcall, hsecond⟩, ?_⟩
  rw [hsum, Framing.fitsIn_drop, List.map_drop]

/-- A connection whose reads fit: the calls together examine the frames of the
stream. -/
theorem Connected.onRecvMsgs_of_fitsIn
    {u t : List UInt8} {fs : List Frame} {reads : List (List UInt8)}
    (h : Connected env P w l s u reads fs t)
    (hinit : ∀ k, frameFormat.Waiting (t.take k))
    (hfits : Framing.FitsIn Buffer.maxSize (fs.map Frame.length) u.length
      (reads.map List.length)) :
    ∃ w', onRecvMsgs env l w reads = .ok w' ∧
      Receiving w' l s t ∧
      Progress env.kind s w w' fs := by
  induction reads generalizing w u fs with
  | nil =>
      obtain ⟨rfl, rfl⟩ := h.finished env
      exact ⟨w, rfl, h.receiving, Progress.of_trace_eq rfl rfl⟩
  | cons bytes reads ih =>
      obtain ⟨hread, hlater⟩ := hfits
      rw [h.boundary] at hread
      obtain ⟨w₁, v, k, hcall, hprogress₁, h₁, hiff⟩ :=
        h.read env hpool hinit hread
      obtain ⟨w', hcalls, h', hprogress'⟩ := ih h₁ (hiff.mp hlater)
      refine ⟨w', ?_, h', ?_⟩
      · rw [onRecvMsgs_cons, hcall, Outcome.bind_ok, hcalls]
      · have hprogress := hprogress₁.trans hprogress'
        rw [List.take_append_drop] at hprogress
        exact hprogress

/-- A connection with a read that does not fit: some call raises
BufferOverflowError. -/
theorem Connected.onRecvMsgs_of_not_fitsIn
    {u t : List UInt8} {fs : List Frame} {reads : List (List UInt8)}
    (h : Connected env P w l s u reads fs t)
    (hinit : ∀ k, frameFormat.Waiting (t.take k))
    (hlong : ¬ Framing.FitsIn Buffer.maxSize (fs.map Frame.length) u.length
      (reads.map List.length)) :
    ∃ e w', onRecvMsgs env l w reads = .crash (.bufferOverflow e) w' := by
  induction reads generalizing w u fs with
  | nil =>
      exact absurd trivial hlong
  | cons bytes reads ih =>
      by_cases hread : u.length + bytes.length ≤ Buffer.maxSize
      · obtain ⟨w₁, v, k, hcall, _, h₁, hiff⟩ := h.read env hpool hinit hread
        have hlater : ¬ Framing.FitsIn Buffer.maxSize
            ((fs.drop k).map Frame.length) v.length
            (reads.map List.length) := by
          intro hfits
          apply hlong
          refine ⟨?_, hiff.mpr hfits⟩
          rw [h.boundary]
          exact hread
        obtain ⟨e, w', hcalls⟩ := ih h₁ hlater
        exact ⟨e, w', by rw [onRecvMsgs_cons, hcall, Outcome.bind_ok, hcalls]⟩
      · obtain ⟨e, w', hcall⟩ :=
          onRecvMsg_overflow env h.receiving (Nat.lt_of_not_le hread)
        exact ⟨e, w', by rw [onRecvMsgs_cons, hcall, Outcome.bind_crash]⟩

end Calls

section Connections

variable {l : LinkId} {s : SessionId} {w : World A}

/-- OnAccept leaves the new session attached, with an empty packet. -/
theorem onAccept_receiving
    (w : World A) (l : LinkId) (s : SessionId)
    (hpool : (env.pool w.created).isSome) :
    ∃ w', onAccept env (openLink w l) l (some s) = .ok w' ∧
      Receiving w' l s [] ∧
      (w'.links l).isOpen = true ∧
      (w'.sessions s).msgSeq = 0 := by
  obtain ⟨data, hdata⟩ := Option.isSome_iff_exists.mp hpool
  simp only [onAccept, createPacket, openLink, World.setLink, hdata]
  refine ⟨_, rfl, ⟨⟨?_, ?_, ?_⟩, ⟨?_, ?_⟩⟩, ?_, ?_⟩
  all_goals
    simp [attachSession, attachClosure, releaseSession, World.setSession,
      World.setLink, World.setPacket, World.log, World.recvPacket]

/-- A manager that has accepted session 0 on link 0 and nothing else. -/
def World.greeted (app : A) : World A :=
  (onAccept env (openLink (World.initial app) 0) 0 (some 0)).world

theorem greeted_receiving
    (app : A)
    (hpool : (env.pool 1).isSome) :
    Receiving (World.greeted env app) 0 0 [] := by
  obtain ⟨w', haccept, h, _⟩ :=
    onAccept_receiving env (World.initial app) 0 0 hpool
  simp only [World.greeted, haccept]
  exact h

theorem run_greeted
    (app : A)
    (hpool : (env.pool 1).isSome) :
    run env (World.initial app) [.accept 0 (some 0)] =
      .ok (World.greeted env app) := by
  obtain ⟨w', haccept, _⟩ :=
    onAccept_receiving env (World.initial app) 0 0 hpool
  simp only [World.greeted, haccept, run_cons, step, Outcome.bind_ok,
    Outcome.world_ok]
  rfl

theorem greeted_isOpen
    (app : A)
    (hpool : (env.pool 1).isSome) :
    ((World.greeted env app).links 0).isOpen = true := by
  obtain ⟨w', haccept, _, hopen, _⟩ :=
    onAccept_receiving env (World.initial app) 0 0 hpool
  simp only [World.greeted, haccept]
  exact hopen

theorem greeted_msgSeq
    (app : A)
    (hpool : (env.pool 1).isSome) :
    ((World.greeted env app).sessions 0).msgSeq = 0 := by
  obtain ⟨w', haccept, _, _, hseq⟩ :=
    onAccept_receiving env (World.initial app) 0 0 hpool
  simp only [World.greeted, haccept]
  exact hseq

/-- Segmentation independence: whatever the cuts, the calls terminate, they
examine exactly the frames of the stream through correct header fields, and they
leave exactly the unfinished frame behind. The handlers have to keep the attachment in the
worlds of the run only. -/
theorem recv_segmentation
    {fs : List Frame} {next : Frame} {t : List UInt8}
    {reads : List (List UInt8)}
    (hpool : ∀ n, (env.pool n).isSome)
    (hstart : Receiving w l s [])
    (hinit : t <+: next.bytes)
    (hproper : t ≠ next.bytes)
    (hcut : reads.flatten = stream fs ++ t)
    (hfits : Framing.FitsIn Buffer.maxSize (fs.map Frame.length) 0
      (reads.map List.length))
    (hwithin : RunsWithin env P l s w reads)
    (hkeeps : KeepingFrames env P l s (w.sessions s).msgSeq fs) :
    ∃ w', onRecvMsgs env l w reads = .ok w' ∧
      Receiving w' l s t ∧
      Progress env.kind s w w' fs ∧
      (headerSize ≤ t.length → ShowsHeader (w'.recvPacket s) next) := by
  have hwait := next.isFrame.waiting_take hinit hproper
  obtain ⟨w', hcalls, h', hprogress⟩ :=
    Connected.onRecvMsgs_of_fitsIn env hpool
      ⟨hstart, hcut, Framing.unfinished_zero _, hwithin, hkeeps⟩ hwait hfits
  refine ⟨w', hcalls, h', hprogress, ?_⟩
  intro hheader
  exact showsHeader_of_initial h'.readCursor h'.unread hinit hheader

/-- Two heartbeats, cut inside the first header and inside the second one. -/
theorem recv_segmentation_heartBeats :
    ∃ w', onRecvMsgs Env.bare 0 (World.greeted Env.bare ())
        [(heartBeatReq 1).bytes.take 4,
          (heartBeatReq 1).bytes.drop 4 ++ (heartBeatReq 2).bytes.take 5] =
        .ok w' ∧
      Receiving w' 0 0 ((heartBeatReq 2).bytes.take 5) ∧
      Progress .tcp 0 (World.greeted Env.bare ()) w' [heartBeatReq 1] ∧
      (headerSize ≤ ((heartBeatReq 2).bytes.take 5).length →
        ShowsHeader (w'.recvPacket 0) (heartBeatReq 2)) :=
  recv_segmentation Env.bare (fun _ => rfl)
    (greeted_receiving Env.bare () rfl) (List.take_prefix 5 _) (by decide)
    (by decide) (by decide) (runsWithin_true Env.bare 0 0 _ _)
    (fun f hf => by
      have hf' := List.mem_singleton.mp (mem_of_mem_accepted hf)
      rw [hf']
      exact ⟨.heartBeatReq, rfl, keeps_heartBeatReq Env.bare _ 0 0⟩)

end Connections

end Loop

end Tcp
end Gamnet
