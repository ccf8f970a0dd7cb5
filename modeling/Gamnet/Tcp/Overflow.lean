import Gamnet.Tcp.Segmentation

/-!
# Overflow of the receive buffer

The read buffer of a link and the packet of a session have the same capacity, so
a read can be too long for what the packet still holds. `Buffer::Append` then
throws, and nothing catches the exception.

The only call of Append that can throw is the one in front of the receive loop
(`onRecvMsg_overflow_iff`). From this follow the exact condition for arbitrary
runs, in terms of the state in front of each read, and the exact condition for a
stream of frames, in terms of the lengths alone.
-/

namespace Gamnet
namespace Tcp

section Overflow

variable {A : Type} (env : Env A)

/-- The call ends with the uncaught BufferOverflowError. -/
def Outcome.Overflows (r : Outcome A) : Prop :=
  ∃ e w, r = .crash (.bufferOverflow e) w

theorem overflows_bind_iff
    (r : Outcome A) (k : World A → Outcome A) :
    (r.bind k).Overflows ↔
      r.Overflows ∨ ∃ w, r = .ok w ∧ (k w).Overflows := by
  cases r with
  | ok w =>
      constructor
      · intro h
        exact Or.inr ⟨w, rfl, h⟩
      · rintro (⟨e, w', hcrash⟩ | ⟨w', heq, h⟩)
        · cases hcrash
        · cases heq
          exact h
  | throws w =>
      constructor
      · exact Or.inl
      · rintro (h | ⟨w', heq, _⟩)
        · exact h
        · cases heq
  | crash c w =>
      constructor
      · exact Or.inl
      · rintro (h | ⟨w', heq, _⟩)
        · exact h
        · cases heq

/-- No handler function raises BufferOverflowError. -/
theorem runHandler_not_overflows
    (cur : LinkId) (h : Handler A) (w : World A) (s : SessionId)
    (packet : Packet) :
    ¬ (runHandler env cur h w s packet).caught.Overflows := by
  rintro ⟨e, w', hcrash⟩
  have hnull := runHandler_crash env hcrash
  cases hnull

theorem dispatch_not_overflows
    (cur : LinkId) (w : World A) (s : SessionId) (packet : Packet) :
    ¬ (dispatch env cur w s packet).Overflows := by
  simp only [dispatch]
  cases findHandler env (w.log (.dispatch s packet)) s packet.getID with
  | none =>
      rintro ⟨e, w', hcrash⟩
      simp only [noHandler] at hcrash
      split at hcrash
      · cases hcrash
      · cases hcrash
  | some found =>
      exact runHandler_not_overflows env cur found.1 _ s packet

theorem deliver_not_overflows
    (cur : LinkId) (w : World A) (s : SessionId) :
    ¬ (deliver env cur w s).Overflows := by
  by_cases hpasses : passes env w s (w.recvPacket s) = true
  · have hdispatch := dispatch_not_overflows env cur
      (w.log (.examine s (w.recvPacket s))) s (w.recvPacket s)
    rw [deliver_of_passes env hpasses, overflows_bind_iff]
    rintro (hcrash | ⟨w₁, _, e, w', hcrash⟩)
    · exact hdispatch hcrash
    · cases hcrash
  · rw [deliver_of_not_passes env hpasses]
    rintro ⟨e, w', hcrash⟩
    cases hcrash

theorem recvRound_not_overflows
    {cur : LinkId} {s : SessionId} {w : World A} {r : Outcome A}
    (h : recvRound env cur s w = .inr r) :
    ¬ r.Overflows := by
  have hok : ∀ w', ¬ (Outcome.ok w' : Outcome A).Overflows := by
    rintro w' ⟨e, w'', hcrash⟩
    cases hcrash
  rcases recvRound_cases env cur s w with
    hend | hend | ⟨_, ⟨w₁, _, hround⟩ | hround⟩
  · rw [hend] at h
    cases h
    exact hok w
  · rw [hend] at h
    cases h
    exact hok _
  · rw [hround] at h
    rw [advance_inr env h]
    exact hok _
  · rw [hround] at h
    cases h
    exact deliver_not_overflows env cur w s

/-- The loop itself never raises BufferOverflowError. -/
theorem recvLoop_not_overflows
    (cur : LinkId) (s : SessionId) (w : World A) :
    ¬ (recvLoop env cur s w).Overflows := by
  simp only [recvLoop]
  cases hrun : WhileLoop.run (recvRound env cur s)
      ((w.recvPacket s).size + 1) w with
  | none =>
      rintro ⟨e, w', hcrash⟩
      cases hcrash
  | some r =>
      exact WhileLoop.run_rule (fun _ => True) (fun r => ¬ r.Overflows)
        (fun _ _ _ _ => trivial)
        (fun _ _ _ hround => recvRound_not_overflows env hround)
        _ trivial hrun

theorem touch_recvPacket
    (w : World A) (s : SessionId) :
    (touch env w s).recvPacket s = w.recvPacket s := by
  simp only [touch]
  cases env.kind with
  | tcp =>
      simp only [World.recvPacket, World.setSession_sessions,
        World.setSession_packets, Function.update_self]
  | router =>
      rfl

/-- A call raises BufferOverflowError exactly when a session is attached and
the read does not fit behind the bytes that its packet holds. -/
theorem onRecvMsg_overflow_iff
    (l : LinkId) (w : World A) (bytes : List UInt8) :
    (onRecvMsg env l w bytes).Overflows ↔
      ∃ s, (w.links l).session = some s ∧
        Buffer.maxSize < (w.recvPacket s).size + bytes.length := by
  cases hsession : (w.links l).session with
  | none =>
      simp only [onRecvMsg, hsession]
      constructor
      · rintro ⟨e, w', hcrash⟩
        cases hcrash
      · rintro ⟨s, hs, _⟩
        cases hs
  | some s =>
      have happend := Packet.append_error_iff
        ((touch env w s).recvPacket s) bytes
      rw [touch_recvPacket env w s] at happend
      have hpacket : (touch env w s).packets
          ((touch env w s).sessions s).recvPacket = w.recvPacket s :=
        touch_recvPacket env w s
      simp only [onRecvMsg, hsession, hpacket]
      cases hresult : (w.recvPacket s).append bytes with
      | error e =>
          have hlong := happend.mp ⟨e, hresult⟩
          constructor
          · intro _
            exact ⟨s, rfl, hlong⟩
          · intro _
            exact ⟨e, touch env w s, rfl⟩
      | ok packet =>
          constructor
          · intro hoverflows
            exact absurd hoverflows (recvLoop_not_overflows env l s _)
          · rintro ⟨t, ht, hlong⟩
            cases ht
            obtain ⟨e, he⟩ := happend.mpr hlong
            rw [hresult] at he
            cases he

end Overflow

section Runs

variable {A : Type} (env : Env A)

/-- A read that fits behind the bytes queued for the attached session. Every
other step fits. -/
def Step.Fits (w : World A) : Step → Prop
  | .recv l bytes =>
      ∀ s, (w.links l).session = some s →
        (w.recvPacket s).size + bytes.length ≤ Buffer.maxSize
  | _ => True

/-- A step raises BufferOverflowError exactly when it is a read that does not
fit. -/
theorem step_overflow_iff
    (w : World A) (a : Step) :
    (step env w a).Overflows ↔ ¬ a.Fits w := by
  have hok : ∀ w', ¬ (Outcome.ok w' : Outcome A).Overflows := by
    rintro w' ⟨e, w'', hcrash⟩
    cases hcrash
  cases a with
  | accept l pooled =>
      simp only [Step.Fits, not_true_eq_false, iff_false]
      rintro ⟨e, w', hcrash⟩
      simp only [step, onAccept] at hcrash
      split at hcrash
      · cases hcrash
      · split at hcrash
        · cases hcrash
        · cases hcrash
  | recv l bytes =>
      simp only [step, Step.Fits]
      rw [onRecvMsg_overflow_iff]
      constructor
      · rintro ⟨s, hs, hlong⟩ hfits
        exact absurd (hfits s hs) (Nat.not_le_of_lt hlong)
      · intro hfits
        by_contra hnone
        apply hfits
        intro s hs
        by_contra hlong
        exact hnone ⟨s, hs, Nat.lt_of_not_le hlong⟩
  | closure l =>
      simp only [Step.Fits, not_true_eq_false, iff_false]
      exact hok _
  | strand l busy =>
      simp only [Step.Fits, not_true_eq_false, iff_false]
      exact hok _
  | call cur c =>
      simp only [Step.Fits, not_true_eq_false, iff_false]
      exact hok _
  | expire key =>
      simp only [Step.Fits, not_true_eq_false, iff_false]
      exact hok _
  | tick now =>
      simp only [Step.Fits, not_true_eq_false, iff_false]
      exact hok _

/-- Every read of a run fits in the state in front of it. -/
def FitsAlong (w : World A) (steps : List Step) : Prop :=
  ∀ front a rest w₁, steps = front ++ a :: rest →
    run env w front = .ok w₁ → a.Fits w₁

theorem fitsAlong_cons_iff
    (w : World A) (a : Step) (steps : List Step) :
    FitsAlong env w (a :: steps) ↔
      a.Fits w ∧ ∀ w₁, step env w a = .ok w₁ → FitsAlong env w₁ steps := by
  constructor
  · intro h
    refine ⟨h [] a steps w rfl rfl, ?_⟩
    intro w₁ hstep front b rest w₂ hsteps hrun
    apply h (a :: front) b rest w₂
    · rw [hsteps, List.cons_append]
    · rw [run_cons, hstep, Outcome.bind_ok, hrun]
  · rintro ⟨hfits, hlater⟩ front b rest w₂ hsteps hrun
    cases front with
    | nil =>
        rw [List.nil_append] at hsteps
        cases hsteps
        cases hrun
        exact hfits
    | cons c front =>
        rw [List.cons_append] at hsteps
        cases hsteps
        rw [run_cons] at hrun
        obtain ⟨w₁, hstep, hrest⟩ := Outcome.bind_eq_ok hrun
        exact hlater w₁ hstep front b rest w₂ rfl hrest

/-- A run is free of BufferOverflowError exactly when every read fits in the
state in front of it. The induction is on the steps. -/
theorem run_overflow_iff
    (w : World A) (steps : List Step) :
    ¬ (run env w steps).Overflows ↔ FitsAlong env w steps := by
  induction steps generalizing w with
  | nil =>
      constructor
      · intro _ front a rest w₁ hsteps
        cases front with
        | nil =>
            cases hsteps
        | cons b front =>
            cases hsteps
      · rintro _ ⟨e, w', hcrash⟩
        cases hcrash
  | cons a steps ih =>
      rw [run_cons, overflows_bind_iff, step_overflow_iff, fitsAlong_cons_iff,
        not_or, not_not]
      refine and_congr_right fun _ => ?_
      constructor
      · intro hnone w₁ hstep
        exact (ih w₁).mp fun hlater => hnone ⟨w₁, hstep, hlater⟩
      · rintro hlater ⟨w₁, hstep, hoverflows⟩
        exact (ih w₁).mpr (hlater w₁ hstep) hoverflows

end Runs

section LegalTraffic

variable {A : Type} (env : Env A)

/-- BufferOverflowError is raised in no run, whatever the handlers do, exactly
when every read fits behind what is queued; and on a stream of frames whose
handlers keep the attachment exactly when every read fits behind the unfinished
frame in front of it. -/
theorem recv_overflow_free_iff :
    (∀ w steps,
      ¬ (run env w steps).Overflows ↔ FitsAlong env w steps) ∧
    ∀ (P : World A → Prop) (w : World A) (l : LinkId) (s : SessionId) (fs : List Frame)
      (next : Frame) (t : List UInt8) (reads : List (List UInt8)),
      (∀ n, (env.pool n).isSome) →
      Receiving w l s [] →
      t <+: next.bytes →
      t ≠ next.bytes →
      reads.flatten = stream fs ++ t →
      RunsWithin env P l s w reads →
      KeepingFrames env P l s (w.sessions s).msgSeq fs →
      (¬ (onRecvMsgs env l w reads).Overflows ↔
        Framing.FitsIn Buffer.maxSize (fs.map Frame.length) 0
          (reads.map List.length)) := by
  refine ⟨run_overflow_iff env, ?_⟩
  intro P w l s fs next t reads hpool hstart hinit hproper hcut hwithin hkeeps
  have hwait := next.isFrame.waiting_take hinit hproper
  have hconnected : Connected env P w l s [] reads fs t :=
    ⟨hstart, hcut, Framing.unfinished_zero _, hwithin, hkeeps⟩
  constructor
  · intro hfree
    by_contra hlong
    exact hfree (hconnected.onRecvMsgs_of_not_fitsIn env hpool hwait hlong)
  · rintro hfits ⟨e, w', hcrash⟩
    obtain ⟨w₁, hcalls, _⟩ :=
      hconnected.onRecvMsgs_of_fitsIn env hpool hwait hfits
    rw [hcalls] at hcrash
    cases hcrash

/-- Two heartbeats that arrive one byte after the other. -/
theorem recv_overflow_free_heartBeats :
    ¬ (onRecvMsgs Env.bare 0 (World.greeted Env.bare ())
      ((heartBeatReq 1).bytes ++ (heartBeatReq 2).bytes.take 9
        |>.map fun b => [b])).Overflows :=
  ((recv_overflow_free_iff Env.bare).2 (fun _ => True) (World.greeted Env.bare ()) 0 0
    [heartBeatReq 1] (heartBeatReq 2) ((heartBeatReq 2).bytes.take 9)
    ((heartBeatReq 1).bytes ++ (heartBeatReq 2).bytes.take 9
      |>.map fun b => [b])
    (fun _ => rfl) (greeted_receiving Env.bare () rfl)
    (List.take_prefix 9 _) (by decide) (by decide) (runsWithin_true Env.bare 0 0 _ _)
    (fun f hf => by
      have hf' := List.mem_singleton.mp (mem_of_mem_accepted hf)
      rw [hf']
      exact ⟨.heartBeatReq, rfl, keeps_heartBeatReq Env.bare _ 0 0⟩)).mpr
    (by decide)

/-- The largest frame that Write accepts: a HeartBeat_Req with a body. -/
def longHeartBeatReq : Frame :=
  Frame.write 1 msgIdHeartBeatReq (List.replicate 65524 0)
    (by rw [List.length_replicate]; decide)

theorem longHeartBeatReq_length :
    longHeartBeatReq.bytes.length = 65534 := by
  have h : longHeartBeatReq.bytes.length =
      headerSize + (List.replicate 65524 (0 : UInt8)).length :=
    written_length 1 msgIdHeartBeatReq _
  rw [h, List.length_replicate]
  rfl

/-- A stream of legal frames, cut into two legal reads: five bytes, and then
as many bytes as a read buffer holds. -/
def longReads : List (List UInt8) :=
  [longHeartBeatReq.bytes.take 5,
    longHeartBeatReq.bytes.drop 5 ++ (heartBeatReq 2).bytes.take 6]

theorem longReads_lengths :
    longReads.map List.length = [5, 65535] := by
  have hshort : ((heartBeatReq 2).bytes.take 6).length = 6 := by
    decide
  simp only [longReads, List.map_cons, List.map_nil, List.length_append,
    List.length_take, List.length_drop, longHeartBeatReq_length]
  rfl

/-- The second read does not fit behind the five bytes of the first one. -/
theorem longReads_overflow :
    (∀ bytes ∈ longReads, 1 ≤ bytes.length ∧ bytes.length ≤ 65535) ∧
    longReads.flatten =
      stream [longHeartBeatReq] ++ (heartBeatReq 2).bytes.take 6 ∧
    (onRecvMsgs Env.bare 0 (World.greeted Env.bare ()) longReads).Overflows := by
  have hcut : longReads.flatten =
      stream [longHeartBeatReq] ++ (heartBeatReq 2).bytes.take 6 := by
    simp only [longReads, List.flatten_cons, List.flatten_nil,
      List.append_nil, stream_cons, stream_nil]
    rw [← List.append_assoc, List.take_append_drop]
  refine ⟨?_, hcut, ?_⟩
  · intro bytes hbytes
    have hlength := List.mem_map_of_mem (f := List.length) hbytes
    rw [longReads_lengths] at hlength
    simp only [List.mem_cons, List.not_mem_nil, or_false] at hlength
    rcases hlength with hlength | hlength
    · omega
    · omega
  · have hwait := (heartBeatReq 2).isFrame.waiting_take
      (List.take_prefix 6 (heartBeatReq 2).bytes) (by decide)
    have hconnected : Connected Env.bare (fun _ => True) (World.greeted Env.bare ()) 0 0 []
        longReads [longHeartBeatReq] ((heartBeatReq 2).bytes.take 6) := by
      refine ⟨greeted_receiving Env.bare () rfl,
        (List.nil_append _).trans hcut, Framing.unfinished_zero _,
        runsWithin_true Env.bare 0 0 _ _, ?_⟩
      intro f hf
      have hf' := List.mem_singleton.mp (mem_of_mem_accepted hf)
      rw [hf']
      refine ⟨.heartBeatReq, ?_, keeps_heartBeatReq Env.bare _ 0 0⟩
      rw [longHeartBeatReq, Frame.write_id _ (by decide)]
      rfl
    apply hconnected.onRecvMsgs_of_not_fitsIn Env.bare (fun _ => rfl) hwait
    have hlens : [longHeartBeatReq].map Frame.length = [65534] := by
      simp only [List.map_cons, List.map_nil, Frame.length,
        longHeartBeatReq_length]
    rw [hlens, longReads_lengths]
    decide

end LegalTraffic

end Tcp
end Gamnet
