import Gamnet.Tcp.Closing
import Gamnet.Tcp.Segmentation
import Mathlib.Logic.Relation

/-!
# Dispatching on a closed link

The dispatcher returns nothing, so the receive loop goes on behind a frame that
has closed the link, and the next frame is dispatched to a session that OnClose
has detached.

`Followed` says that the loop will dispatch another frame in the same call. A
call is free of late dispatches and of the NULL dereference in the dispatcher
exactly when none of its rounds closes the link on such a frame (`recv_callOk_iff`).
-/

namespace Gamnet
namespace Tcp

section UpcomingFrames

variable {A : Type} (env : Env A)

theorem not_upcoming_nil
    (msgSeq created : Nat) :
    ¬ Upcoming env msgSeq created [] := by
  rintro ⟨fs, f, gs, t, hstream, _⟩
  have hlength := congrArg List.length hstream
  have hpos : 0 < f.bytes.length := f.length_pos
  rw [stream_append, stream_cons] at hlength
  simp only [List.length_nil, List.length_append] at hlength
  omega

/-- The first frame passes the test, or it is discarded and a frame behind it
passes. -/
theorem upcoming_cons_iff
    (msgSeq created : Nat) (f : Frame) (rest : List UInt8) :
    Upcoming env msgSeq created (f.bytes ++ rest) ↔
      env.kind.accepts msgSeq f = true ∨
        (env.pool created).isSome = true ∧
          Upcoming env msgSeq (created + 1) rest := by
  constructor
  · rintro ⟨fs, g, gs, t, hstream, haccepts, hpool⟩
    cases fs with
    | nil =>
        rw [List.nil_append, stream_cons, List.append_assoc] at hstream
        obtain ⟨rfl, _⟩ := Frame.eq_of_append_eq hstream
        exact Or.inl haccepts
    | cons f' fs =>
        rw [List.cons_append, stream_cons, List.append_assoc] at hstream
        obtain ⟨rfl, hrest⟩ := Frame.eq_of_append_eq hstream
        refine Or.inr ⟨hpool 0 (Nat.succ_pos _), fs, g, gs, t, hrest,
          haccepts, ?_⟩
        intro i hi
        have hpool' := hpool (i + 1) (Nat.succ_lt_succ hi)
        rw [Nat.add_assoc, Nat.add_comm 1 i]
        exact hpool'
  · rintro (haccepts | ⟨hpool, fs, g, gs, t, rfl, haccepts, hpools⟩)
    · refine ⟨[], f, [], rest, ?_, haccepts, ?_⟩
      · simp
      · intro i hi
        cases hi
    · refine ⟨f :: fs, g, gs, t, ?_, haccepts, ?_⟩
      · rw [List.cons_append, stream_cons, List.append_assoc]
      · intro i hi
        cases i with
        | zero =>
            exact hpool
        | succ i =>
            have hpool' := hpools i (Nat.lt_of_succ_lt_succ hi)
            rw [Nat.add_assoc, Nat.add_comm 1 i] at hpool'
            exact hpool'

/-- With the read cursor at the front, the packet starts with a frame that the
loop takes exactly when the queued bytes start with a frame. -/
theorem frontComplete_iff
    {w : World A} {s : SessionId} {c : List UInt8}
    (h : Holds w s c) :
    FrontComplete w s ↔ ∃ (f : Frame) (rest : List UInt8),
      c = f.bytes ++ rest := by
  have hsize := h.size_eq
  have hmod : c.length % 65536 = c.length :=
    Nat.mod_eq_of_lt (Nat.lt_of_le_of_lt h.length_le (by decide))
  constructor
  · intro hfront
    have hheader : headerSize ≤ c.length := by
      rw [← hsize]
      exact hfront.header
    have hlength := h.getLength_eq hheader
    have hlow := hfront.low
    have hhigh := hfront.high
    have hfull := hfront.full
    rw [hlength] at hlow hhigh hfull
    rw [(w.recvPacket s).capacity_eq] at hhigh
    rw [hsize, hmod] at hfull
    have hstuck : ¬ frameFormat.Stuck c := by
      rintro ((hshort | ⟨hwait, _⟩) | ⟨_, hsmall | hlarge⟩)
      · exact absurd hheader (Nat.not_le_of_lt hshort)
      · exact absurd hfull (Nat.not_le_of_lt hwait)
      · exact absurd hlow (Nat.not_le_of_lt hsmall)
      · exact absurd hhigh (Nat.not_lt_of_le hlarge)
    obtain ⟨f, rest, hc, hf⟩ := Framing.exists_frame_of_not_stuck hstuck
    exact ⟨⟨f, hf⟩, rest, hc⟩
  · rintro ⟨f, rest, rfl⟩
    have hlength := getLength_of_front h.readCursor h.unread
    have htotal : f.length ≤ (f.bytes ++ rest).length := by
      rw [List.length_append]
      exact Nat.le_add_right _ _
    refine ⟨?_, ?_, ?_, ?_⟩
    · rw [hsize]
      exact Nat.le_trans f.headerSize_le htotal
    · rw [hlength]
      exact f.headerSize_le
    · rw [hlength, (w.recvPacket s).capacity_eq]
      exact f.length_lt
    · rw [hlength, hsize, hmod]
      exact htotal

end UpcomingFrames

section LoopRounds

variable {A : Type} (env : Env A)
variable {l : LinkId} {s : SessionId} {w : World A}

/-- Without a complete frame a round ends the loop. -/
theorem recvRound_of_not_complete
    (hfront : ¬ FrontComplete w s) :
    recvRound env l s w = .inr (.ok w) ∨
      recvRound env l s w = .inr (.ok (onError env l w l)) := by
  simp only [recvRound]
  split
  · exact Or.inl rfl
  · rename_i hheader
    split
    · exact Or.inr rfl
    · rename_i hlow
      split
      · exact Or.inr rfl
      · rename_i hhigh
        split
        · exact Or.inl rfl
        · rename_i hfull
          exact absurd ⟨Nat.le_of_not_lt hheader, Nat.le_of_not_lt hlow,
            Nat.lt_of_not_le hhigh, Nat.le_of_not_lt hfull⟩ hfront

/-- With a complete frame a round delivers it and goes on behind it. -/
theorem recvRound_of_complete
    (hfront : FrontComplete w s) :
    (∃ w₁, deliver env l w s = .ok w₁ ∧
      recvRound env l s w =
        advance env l w₁ s (w.recvPacket s).getLength) ∨
    ((∀ w₁, deliver env l w s ≠ .ok w₁) ∧
      recvRound env l s w = .inr (deliver env l w s)) := by
  simp only [recvRound]
  rw [if_neg (Nat.not_lt_of_le hfront.header),
    if_neg (Nat.not_lt_of_le hfront.low),
    if_neg (Nat.not_le_of_lt hfront.high),
    if_neg (Nat.not_lt_of_le hfront.full)]
  cases deliver env l w s with
  | ok w₁ =>
      exact Or.inl ⟨w₁, rfl, rfl⟩
  | throws w₁ =>
      refine Or.inr ⟨?_, rfl⟩
      intro w₂ h
      cases h
  | crash c w₁ =>
      refine Or.inr ⟨?_, rfl⟩
      intro w₂ h
      cases h

/-- The stored sequence number behind a frame that was dispatched. -/
theorem deliver_msgSeq
    {w₁ : World A}
    (hpasses : passes env w s (w.recvPacket s) = true)
    (hdeliver : deliver env l w s = .ok w₁) :
    (w₁.sessions s).msgSeq = seqBehind env w s := by
  obtain ⟨w₂, hdispatch, rfl⟩ := deliver_ok_of_passes env hpasses hdeliver
  have hsteady := steady_dispatch env s l
    (w.log (.examine s (w.recvPacket s))) (w.recvPacket s)
  rw [hdispatch] at hsteady
  simp only [storeSeq, seqBehind]
  cases env.kind with
  | tcp =>
      simp
  | router =>
      exact hsteady.msgSeq s

/-- A dispatch that closes the link returns, and it is known how many packets
the manager has created then. -/
theorem deliver_of_closes
    (hpasses : passes env w s (w.recvPacket s) = true)
    (hcloses : Closes env l w s) :
    ∃ w₁, deliver env l w s = .ok w₁ ∧
      w₁.created = createdBehind env w s := by
  obtain ⟨_, hcause⟩ := hcloses
  rw [deliver_of_passes env hpasses]
  simp only [dispatch, createdBehind]
  cases hfind : frontHandler env w s with
  | none =>
      rw [hfind] at hcause
      simp only at hcause
      simp only [frontHandler, atDispatcher] at hfind
      simp only [hfind, noHandler, World.log_sessions, hcause,
        Outcome.bind_ok]
      refine ⟨_, rfl, ?_⟩
      rw [storeSeq_created, created_onError]
      rfl
  | some found =>
      rw [hfind] at hcause
      simp only at hcause
      simp only [frontHandler, atDispatcher] at hfind
      simp only [hfind]
      have hcreated := created_runHandler env l found.1
        { atDispatcher w s with app := found.2 } s (w.recvPacket s) _ hcause
      have hreturns : ∃ w₂, (runHandler env l found.1
          { atDispatcher w s with app := found.2 } s
            (w.recvPacket s)).caught = .ok w₂ := by
        obtain ⟨h, app⟩ := found
        cases h with
        | connectReq =>
            cases hlink : (w.sessions s).link with
            | none =>
                simp [Handler.calls, atDispatcher, hlink] at hcause
            | some k =>
                exact runHandler_returns env l .connectReq (w.recvPacket s)
                  (l := k) hlink
        | reconnectReq =>
            cases hcause
        | heartBeatReq =>
            cases hcause
        | user u =>
            simp only [runHandler, recvUser, react]
            split
            · exact ⟨_, rfl⟩
            · exact ⟨_, rfl⟩
      obtain ⟨w₂, hw₂⟩ := hreturns
      have hworld := Outcome.caught_world (runHandler env l found.1
        { atDispatcher w s with app := found.2 } s (w.recvPacket s))
      rw [hw₂, Outcome.world_ok] at hworld
      refine ⟨storeSeq env w₂ s (w.recvPacket s).getSEQ, ?_, ?_⟩
      · simp only [atDispatcher] at hw₂
        rw [hw₂]
        rfl
      · rw [storeSeq_created, hworld, hcreated]
        cases found.1 with
        | connectReq =>
            rfl
        | reconnectReq =>
            rfl
        | heartBeatReq =>
            rfl
        | user u =>
            rfl

end LoopRounds

section LateDispatches

variable {A : Type} (env : Env A)
variable {l : LinkId} {s : SessionId} {w w' : World A}

/-- The end of a round that goes on, whatever the state of the packet. -/
theorem advance_inl
    {n : Nat}
    (hexists : (w.sessions s).recvPacket < w.created)
    (h : advance env l w s n = .inl w') :
    Holds w' s ((w.recvPacket s).unread.drop n) ∧
      Advanced s w w' ∧
      ((w.recvPacket s).unread.drop n = [] ∨
        (env.pool w.created).isSome = true ∧
          w'.created = w.created + 1) := by
  by_cases hrest : (w.recvPacket s).unread.drop n = []
  · obtain ⟨w'', hadvance, hholds, hadvanced, _⟩ :=
      advance_last env l rfl hexists hrest
    rw [h] at hadvance
    cases hadvance
    rw [hrest]
    exact ⟨hholds, hadvanced, Or.inl rfl⟩
  · cases hpool : env.pool w.created with
    | none =>
        obtain ⟨w'', hadvance, _⟩ :=
          advance_exhausted env l rfl hrest hpool
        rw [h] at hadvance
        cases hadvance
    | some data =>
        obtain ⟨w'', hadvance, hholds, hadvanced, _, hcreated⟩ :=
          advance_more env l rfl hrest hpool
        rw [h] at hadvance
        cases hadvance
        exact ⟨hholds, hadvanced, Or.inr ⟨rfl, hcreated⟩⟩

/-- A round that goes on has delivered a frame and stands behind it. -/
theorem recvRound_inl
    (hsound : Sound w)
    (h : recvRound env l s w = .inl w') :
    FrontComplete w s ∧ ∃ w₁, deliver env l w s = .ok w₁ ∧
      Holds w' s
        ((w.recvPacket s).unread.drop (w.recvPacket s).getLength) ∧
      Advanced s w₁ w' ∧
      ((w.recvPacket s).unread.drop (w.recvPacket s).getLength = [] ∨
        (env.pool w₁.created).isSome = true ∧
          w'.created = w₁.created + 1) := by
  by_cases hfront : FrontComplete w s
  · rcases recvRound_of_complete env (l := l) hfront with
      ⟨w₁, hdeliver, hround⟩ | ⟨_, hround⟩
    · obtain ⟨hexists, hpacket⟩ := deliver_recvPacket env (hsound s) hdeliver
      rw [hround] at h
      have hadvance := advance_inl env hexists h
      rw [hpacket] at hadvance
      exact ⟨hfront, w₁, hdeliver, hadvance⟩
    · rw [hround] at h
      cases h
  · rcases recvRound_of_not_complete env (l := l) hfront with
      hround | hround
    · rw [hround] at h
      cases h
    · rw [hround] at h
      cases h

/-- The events of a round that goes on. -/
theorem recvRound_inl_events
    (hsound : Sound w)
    (h : recvRound env l s w = .inl w') :
    ∃ events, Adds l (Dispatches env w s) w w' events ∧
      (Event.close l ∈ events ↔
        Dispatches env w s ∧ Closes env l w s) := by
  obtain ⟨hfront, w₁, hdeliver, _, hadvanced, _⟩ :=
    recvRound_inl env hsound h
  obtain ⟨events, hevents⟩ := deliver_adds env l w s
  rw [hdeliver, Outcome.world_ok] at hevents
  refine ⟨events, ⟨?_, hevents.calm, ?_⟩, ?_⟩
  · rw [hadvanced.trace, hevents.trace]
  · rw [hevents.dispatch_iff]
    exact ⟨fun hpasses => ⟨hfront, hpasses⟩, fun hdispatch => hdispatch.2⟩
  · rw [hevents.close_iff]
    exact ⟨fun h => ⟨⟨hfront, h.1⟩, h.2⟩, fun h => ⟨h.1.2, h.2⟩⟩

/-- The events of a round that ends the loop. -/
theorem recvRound_inr_events
    {r : Outcome A}
    (h : recvRound env l s w = .inr r) :
    ∃ events, Adds l (Dispatches env w s) w r.world events := by
  by_cases hfront : FrontComplete w s
  · have hiff : passes env w s (w.recvPacket s) = true ↔
        Dispatches env w s :=
      ⟨fun hpasses => ⟨hfront, hpasses⟩, fun hdispatch => hdispatch.2⟩
    obtain ⟨events, hevents⟩ := deliver_adds env l w s
    have hadds := hevents.toAdds
    rw [hiff] at hadds
    rcases recvRound_of_complete env (l := l) hfront with
      ⟨w₁, hdeliver, hround⟩ | ⟨_, hround⟩
    · rw [hround] at h
      rw [hdeliver, Outcome.world_ok] at hadds
      obtain ⟨closed, htrace⟩ := (mild_advance_end env h).trace
      exact ⟨_, hadds.closed htrace⟩
    · rw [hround] at h
      cases h
      exact ⟨events, hadds⟩
  · have hnone : Adds l (Dispatches env w s) w w [] := by
      refine ⟨rfl, List.Pairwise.nil, ?_⟩
      constructor
      · rintro ⟨e, he, _⟩
        cases he
      · intro hdispatch
        exact absurd hdispatch.1 hfront
    rcases recvRound_of_not_complete env (l := l) hfront with
      hround | hround
    · rw [hround] at h
      cases h
      exact ⟨[], hnone⟩
    · rw [hround] at h
      cases h
      obtain ⟨closed, htrace, _⟩ := (steady_onError env s l w l).trace
      exact ⟨_, hnone.closed htrace⟩

/-- An upcoming frame is behind complete frames, of which the loop takes the first. -/
theorem frontComplete_of_upcoming
    {c : List UInt8}
    (hholds : Holds w s c)
    (hupcoming : Upcoming env (w.sessions s).msgSeq w.created c) :
    FrontComplete w s := by
  obtain ⟨fs, f, gs, t, hstream, _⟩ := hupcoming
  rw [frontComplete_iff hholds]
  cases fs with
  | nil =>
      exact ⟨f, stream gs ++ t, by simp [hstream]⟩
  | cons f' fs =>
      exact ⟨f', stream (fs ++ f :: gs) ++ t, by simp [hstream]⟩

/-- A frame that does not pass and is followed by another one: the round goes on. -/
theorem recvRound_of_discarded
    {f : Frame} {rest : List UInt8}
    (hholds : Holds w s (f.bytes ++ rest))
    (hpasses : ¬ passes env w s (w.recvPacket s) = true)
    (hpool : (env.pool w.created).isSome = true)
    (hrest : rest ≠ []) :
    ∃ w₂, recvRound env l s w = .inl w₂ := by
  have hdrop := drop_of_front hholds
  have hdeliver := deliver_of_not_passes env (l := l) hpasses
  obtain ⟨data, hdata⟩ := Option.isSome_iff_exists.mp hpool
  obtain ⟨w₂, hadvance, _⟩ := advance_more env l
    (w := w.log (.examine s (w.recvPacket s))) (s := s) hdrop hrest hdata
  refine ⟨w₂, ?_⟩
  rw [recvRound_of_frame env hholds, hdeliver]
  exact hadvance

/-- A round that ends the loop dispatches a frame exactly when one is upcoming. -/
theorem dispatches_iff_upcoming
    {c : List UInt8} {r : Outcome A}
    (hholds : Holds w s c)
    (hround : recvRound env l s w = .inr r) :
    Dispatches env w s ↔ Upcoming env (w.sessions s).msgSeq w.created c := by
  constructor
  · rintro ⟨hfront, hpasses⟩
    obtain ⟨f, rest, rfl⟩ := (frontComplete_iff hholds).mp hfront
    rw [upcoming_cons_iff, ← passes_of_front env hholds]
    exact Or.inl hpasses
  · intro hupcoming
    have hfront := frontComplete_of_upcoming env hholds hupcoming
    obtain ⟨f, rest, rfl⟩ := (frontComplete_iff hholds).mp hfront
    refine ⟨hfront, ?_⟩
    rw [upcoming_cons_iff, ← passes_of_front env hholds] at hupcoming
    rcases hupcoming with hpasses | ⟨hpool, hlater⟩
    · exact hpasses
    · by_contra hpasses
      have hrest : rest ≠ [] := by
        rintro rfl
        exact not_upcoming_nil env _ _ hlater
      obtain ⟨w₂, hround₂⟩ :=
        recvRound_of_discarded env (l := l) hholds hpasses hpool hrest
      rw [hround] at hround₂
      cases hround₂

/-- A round that goes on dispatches a frame or leaves the frames that are upcoming behind
it. -/
theorem upcoming_iff_of_inl
    {c : List UInt8} {w₂ : World A}
    (hsound : Sound w)
    (hholds : Holds w s c)
    (hround : recvRound env l s w = .inl w₂) :
    ∃ rest, Holds w₂ s rest ∧
      (Upcoming env (w.sessions s).msgSeq w.created c ↔
        Upcoming env (w₂.sessions s).msgSeq w₂.created rest ∨
          Dispatches env w s) := by
  obtain ⟨hfront, w₁, hdeliver, hholds₂, hadvanced, hcreated⟩ :=
    recvRound_inl env hsound hround
  obtain ⟨f, rest, rfl⟩ := (frontComplete_iff hholds).mp hfront
  rw [getLength_of_front hholds.readCursor hholds.unread, drop_of_front hholds]
    at hholds₂ hcreated
  have haccepts := passes_of_front env hholds
  refine ⟨rest, hholds₂, ?_⟩
  rw [upcoming_cons_iff, ← haccepts]
  by_cases hpasses : passes env w s (w.recvPacket s) = true
  · have hdispatch : Dispatches env w s := ⟨hfront, hpasses⟩
    exact ⟨fun _ => Or.inr hdispatch, fun _ => Or.inl hpasses⟩
  · have hnot : ¬ Dispatches env w s :=
      fun hdispatch => hpasses hdispatch.2
    rw [deliver_of_not_passes env hpasses] at hdeliver
    cases hdeliver
    have hseq₂ : (w₂.sessions s).msgSeq = (w.sessions s).msgSeq :=
      hadvanced.msgSeq_eq s
    rw [or_iff_right hpasses, or_iff_left hnot, hseq₂]
    rcases hcreated with rfl | ⟨hpool, hcreated⟩
    · exact iff_of_false (fun hlater => not_upcoming_nil env _ _ hlater.2)
        (not_upcoming_nil env _ _)
    · rw [hcreated]
      exact ⟨fun hlater => hlater.2, fun hlater => ⟨hpool, hlater⟩⟩

/-- A loop that starts with the read cursor at the front dispatches a frame
exactly when one is upcoming. The induction is on the rounds. -/
theorem run_upcoming_iff
    {n : Nat} {c : List UInt8} {r : Outcome A}
    (hsound : Sound w)
    (hholds : Holds w s c)
    (hrun : WhileLoop.run (recvRound env l s) n w = some r) :
    ∃ events, r.world.trace = events ++ w.trace ∧
      ((∃ e ∈ events, e.IsDispatch) ↔
        Upcoming env (w.sessions s).msgSeq w.created c) := by
  induction n generalizing w c with
  | zero =>
      cases hrun
  | succ n ih =>
      cases hround : recvRound env l s w with
      | inr r' =>
          rw [WhileLoop.run_done hround, Option.some.injEq] at hrun
          subst hrun
          obtain ⟨events, hevents⟩ := recvRound_inr_events env hround
          refine ⟨events, hevents.trace, ?_⟩
          rw [hevents.dispatch_iff]
          exact dispatches_iff_upcoming env hholds hround
      | inl w₂ =>
          rw [WhileLoop.run_continue hround] at hrun
          obtain ⟨rest, hholds₂, hupcoming⟩ :=
            upcoming_iff_of_inl env hsound hholds hround
          have hsound₂ : Sound w₂ :=
            recvRound_keeps_inl (isInvariant_sound env) hsound hround
          obtain ⟨events₁, hevents₁, _⟩ :=
            recvRound_inl_events env hsound hround
          obtain ⟨events₂, htrace₂, hlater⟩ := ih hsound₂ hholds₂ hrun
          refine ⟨events₂ ++ events₁, ?_, ?_⟩
          · rw [htrace₂, hevents₁.trace, List.append_assoc]
          · have hexists :
                (∃ e ∈ events₂ ++ events₁, e.IsDispatch) ↔
                  (∃ e ∈ events₂, e.IsDispatch) ∨
                    ∃ e ∈ events₁, e.IsDispatch := by
              simp only [List.mem_append, or_and_right, exists_or]
            rw [hexists, hlater, hevents₁.dispatch_iff, hupcoming]

/-- A frame that closes the link and is followed: the round goes on. -/
theorem recvRound_of_followed
    (hsound : Sound w)
    (hdispatch : Dispatches env w s)
    (hcloses : Closes env l w s)
    (hfollowed : Followed env w s) :
    ∃ w₂, recvRound env l s w = .inl w₂ := by
  obtain ⟨hpool, hupcoming⟩ := hfollowed
  obtain ⟨w₁, hdeliver, hcreated⟩ :=
    deliver_of_closes env hdispatch.2 hcloses
  obtain ⟨_, hpacket⟩ := deliver_recvPacket env (hsound s) hdeliver
  have hrest : (w.recvPacket s).unread.drop (w.recvPacket s).getLength ≠
      [] := by
    intro hnil
    rw [hnil] at hupcoming
    exact not_upcoming_nil env _ _ hupcoming
  rw [← hcreated] at hpool
  obtain ⟨data, hdata⟩ := Option.isSome_iff_exists.mp hpool
  rw [← hpacket] at hrest
  obtain ⟨w₂, hadvance, _⟩ := advance_more env l rfl hrest hdata
  rcases recvRound_of_complete env (l := l) hdispatch.1 with
    ⟨w₁', hdeliver', hround⟩ | ⟨hnot, _⟩
  · rw [hdeliver] at hdeliver'
    cases hdeliver'
    rw [hpacket] at hadvance
    exact ⟨w₂, by rw [hround, hadvance]⟩
  · exact absurd hdeliver (hnot w₁)

/-- Behind a round that closed the link, a frame is upcoming exactly when the
frame of the round was followed. -/
theorem upcoming_iff_followed
    {w₂ : World A}
    (hsound : Sound w)
    (hdispatch : Dispatches env w s)
    (hcloses : Closes env l w s)
    (hround : recvRound env l s w = .inl w₂) :
    Upcoming env (w₂.sessions s).msgSeq w₂.created
        ((w.recvPacket s).unread.drop (w.recvPacket s).getLength) ↔
      Followed env w s := by
  obtain ⟨w₁, hdeliver, hcreated⟩ :=
    deliver_of_closes env hdispatch.2 hcloses
  obtain ⟨_, w₁', hdeliver', _, hadvanced, hcases⟩ :=
    recvRound_inl env hsound hround
  rw [hdeliver] at hdeliver'
  cases hdeliver'
  rw [hadvanced.msgSeq_eq, deliver_msgSeq env hdispatch.2 hdeliver]
  rw [hcreated] at hcases
  simp only [Followed]
  rcases hcases with hnil | ⟨hpool, hcreated₂⟩
  · rw [hnil]
    constructor
    · intro h
      exact absurd h (not_upcoming_nil env _ _)
    · rintro ⟨_, h⟩
      exact absurd h (not_upcoming_nil env _ _)
  · rw [hcreated₂]
    exact ⟨fun h => ⟨hpool, h⟩, fun h => h.2⟩

/-- The rounds of the loop of link l for session s that go on. -/
def Rounds (l : LinkId) (s : SessionId) : World A → World A → Prop :=
  Relation.ReflTransGen fun w w' => recvRound env l s w = .inl w'

theorem rounds_iff_of_inl
    {w₂ w₃ : World A}
    (hround : recvRound env l s w = .inl w₂) :
    Rounds env l s w w₃ ↔ w = w₃ ∨ Rounds env l s w₂ w₃ := by
  rw [Rounds, Relation.ReflTransGen.cases_head_iff]
  constructor
  · rintro (rfl | ⟨w₂', hround', hrounds⟩)
    · exact Or.inl rfl
    · rw [hround] at hround'
      cases hround'
      exact Or.inr hrounds
  · rintro (rfl | hrounds)
    · exact Or.inl rfl
    · exact Or.inr ⟨w₂, hround, hrounds⟩

theorem rounds_iff_of_inr
    {w₃ : World A} {r : Outcome A}
    (hround : recvRound env l s w = .inr r) :
    Rounds env l s w w₃ ↔ w = w₃ := by
  rw [Rounds, Relation.ReflTransGen.cases_head_iff]
  constructor
  · rintro (rfl | ⟨w₂', hround', _⟩)
    · rfl
    · rw [hround] at hround'
      cases hround'
  · exact Or.inl

/-- Behind a round that goes on there is no late dispatch exactly when there is none in
what follows and the round does not close the link on a frame that is followed. -/
theorem calm_iff_of_inl
    {n : Nat} {r : Outcome A} {w₂ : World A}
    (hsound : Sound w)
    (hround : recvRound env l s w = .inl w₂)
    (hrun : WhileLoop.run (recvRound env l s) n w₂ = some r) :
    (∃ events, r.world.trace = events ++ w.trace ∧ Calm l events) ↔
      (∃ events, r.world.trace = events ++ w₂.trace ∧ Calm l events) ∧
        ¬ (Dispatches env w s ∧ Closes env l w s ∧ Followed env w s) := by
  have hsound₂ : Sound w₂ :=
    recvRound_keeps_inl (isInvariant_sound env) hsound hround
  obtain ⟨events₁, hevents₁, hclose⟩ :=
    recvRound_inl_events env hsound hround
  obtain ⟨_, w₁, _, hholds₂, _⟩ := recvRound_inl env hsound hround
  obtain ⟨events₂, htrace₂, hupcoming⟩ :=
    run_upcoming_iff env hsound₂ hholds₂ hrun
  have hcross : (Event.close l ∈ events₁ ∧ ∃ e ∈ events₂, e.IsDispatch) ↔
      Dispatches env w s ∧ Closes env l w s ∧ Followed env w s := by
    rw [hclose, hupcoming]
    constructor
    · rintro ⟨⟨hdispatch, hcloses⟩, hup⟩
      exact ⟨hdispatch, hcloses,
        (upcoming_iff_followed env hsound hdispatch hcloses hround).mp hup⟩
    · rintro ⟨hdispatch, hcloses, hfollowed⟩
      exact ⟨⟨hdispatch, hcloses⟩,
        (upcoming_iff_followed env hsound hdispatch hcloses hround).mpr
          hfollowed⟩
  rw [← hcross]
  constructor
  · rintro ⟨events, htrace, hcalm⟩
    have heq : events = events₂ ++ events₁ := by
      rw [htrace₂, hevents₁.trace, ← List.append_assoc] at htrace
      exact (List.append_cancel_right htrace).symm
    rw [heq, calm_append_iff] at hcalm
    exact ⟨⟨events₂, htrace₂, hcalm.1⟩, hcalm.2.2⟩
  · rintro ⟨⟨events, htrace, hcalm⟩, hnone⟩
    have heq : events = events₂ := by
      rw [htrace₂] at htrace
      exact (List.append_cancel_right htrace).symm
    rw [heq] at hcalm
    refine ⟨events₂ ++ events₁, ?_, ?_⟩
    · rw [htrace₂, hevents₁.trace, List.append_assoc]
    · rw [calm_append_iff]
      exact ⟨hcalm, hevents₁.calm, hnone⟩

/-- A call has no late dispatch exactly when no round closes the link on a frame
that is followed. The induction is on the rounds. -/
theorem run_calm_iff
    {n : Nat} {r : Outcome A}
    (hsound : Sound w)
    (hrun : WhileLoop.run (recvRound env l s) n w = some r) :
    (∃ events, r.world.trace = events ++ w.trace ∧ Calm l events) ↔
      ∀ w₁, Rounds env l s w w₁ → Dispatches env w₁ s →
        ¬ (Closes env l w₁ s ∧ Followed env w₁ s) := by
  induction n generalizing w with
  | zero =>
      cases hrun
  | succ n ih =>
      cases hround : recvRound env l s w with
      | inr r' =>
          rw [WhileLoop.run_done hround, Option.some.injEq] at hrun
          subst hrun
          obtain ⟨events, hevents⟩ := recvRound_inr_events env hround
          constructor
          · rintro _ w₁ hrounds hdispatch ⟨hcloses, hfollowed⟩
            rw [rounds_iff_of_inr env hround] at hrounds
            subst hrounds
            obtain ⟨w₂, hround₂⟩ :=
              recvRound_of_followed env hsound hdispatch hcloses hfollowed
            rw [hround] at hround₂
            cases hround₂
          · intro _
            exact ⟨events, hevents.trace, hevents.calm⟩
      | inl w₂ =>
          rw [WhileLoop.run_continue hround] at hrun
          have hsound₂ : Sound w₂ :=
            recvRound_keeps_inl (isInvariant_sound env) hsound hround
          rw [calm_iff_of_inl env hsound hround hrun, ih hsound₂ hrun]
          constructor
          · rintro ⟨hrest, hnone⟩ w₁ hrounds hdispatch hboth
            rw [rounds_iff_of_inl env hround] at hrounds
            rcases hrounds with rfl | hrounds
            · exact hnone ⟨hdispatch, hboth⟩
            · exact hrest w₁ hrounds hdispatch hboth
          · intro hall
            refine ⟨?_, ?_⟩
            · intro w₁ hrounds
              exact hall w₁ ((rounds_iff_of_inl env hround).mpr
                (Or.inr hrounds))
            · rintro ⟨hdispatch, hboth⟩
              exact hall w ((rounds_iff_of_inl env hround).mpr
                (Or.inl rfl)) hdispatch hboth

end LateDispatches

section NullLinks

variable {A : Type} (env : Env A)
variable {l : LinkId} {s : SessionId} {w : World A}

theorem runHandler_ne_nullLink
    (cur : LinkId) (h : Handler A) (w : World A) (s : SessionId)
    (packet : Packet) (w' : World A) :
    (runHandler env cur h w s packet).caught ≠ .crash .nullLink w' := by
  intro hcrash
  have hnull := runHandler_crash env hcrash
  cases hnull

/-- A delivery dies in the dispatcher exactly when the frame has no handler and
the session no link. -/
theorem deliver_nullLink_iff :
    (∃ w', deliver env l w s = .crash .nullLink w') ↔
      passes env w s (w.recvPacket s) = true ∧ NullLink env w s := by
  by_cases hpasses : passes env w s (w.recvPacket s) = true
  · rw [deliver_of_passes env hpasses]
    simp only [hpasses, true_and, NullLink, dispatch]
    cases hfind : frontHandler env w s with
    | none =>
        simp only [frontHandler, atDispatcher] at hfind
        simp only [hfind, noHandler, World.log_sessions, true_and]
        cases (w.sessions s).link with
        | none =>
            constructor
            · intro _
              rfl
            · intro _
              exact ⟨_, rfl⟩
        | some k =>
            constructor
            · rintro ⟨w', hcrash⟩
              cases hcrash
            · intro hnull
              cases hnull
    | some found =>
        simp only [frontHandler, atDispatcher] at hfind
        simp only [hfind]
        constructor
        · rintro ⟨w', hcrash⟩
          have hnot := runHandler_ne_nullLink env l found.1
            { atDispatcher w s with app := found.2 } s (w.recvPacket s)
          simp only [atDispatcher] at hnot
          exact absurd (Outcome.bind_eq_crash hcrash) (hnot _)
        · rintro ⟨hnone, _⟩
          cases hnone
  · rw [deliver_of_not_passes env hpasses]
    constructor
    · rintro ⟨w', hcrash⟩
      cases hcrash
    · rintro ⟨h, _⟩
      exact absurd h hpasses

/-- A round that ends the loop dies in the dispatcher exactly when it hands a frame to it
whose handler is missing and whose link is NULL. -/
theorem crash_nullLink_iff_of_inr
    {r : Outcome A}
    (hround : recvRound env l s w = .inr r) :
    (∃ w', r = .crash .nullLink w') ↔
      Dispatches env w s ∧ NullLink env w s := by
  by_cases hfront : FrontComplete w s
  · rcases recvRound_of_complete env (l := l) hfront with
      ⟨w₁, hdeliver, hround'⟩ | ⟨_, hround'⟩
    · rw [hround'] at hround
      constructor
      · rintro ⟨w', hcrash⟩
        rw [advance_inr env hround] at hcrash
        cases hcrash
      · rintro ⟨hdispatch, hnull⟩
        obtain ⟨w', hcrash⟩ := (deliver_nullLink_iff env
          (l := l)).mpr ⟨hdispatch.2, hnull⟩
        rw [hdeliver] at hcrash
        cases hcrash
    · rw [hround'] at hround
      cases hround
      rw [deliver_nullLink_iff]
      exact ⟨fun h => ⟨⟨hfront, h.1⟩, h.2⟩, fun h => ⟨h.1.2, h.2⟩⟩
  · constructor
    · rintro ⟨w', hcrash⟩
      rcases recvRound_of_not_complete env (l := l) hfront with
        hround' | hround'
      · rw [hround', hcrash] at hround
        cases hround
      · rw [hround', hcrash] at hround
        cases hround
    · rintro ⟨hdispatch, _⟩
      exact absurd hdispatch.1 hfront

/-- A round that goes on does not hand over such a frame. -/
theorem not_nullLink_of_inl
    {w₂ : World A}
    (hround : recvRound env l s w = .inl w₂)
    (hdispatch : Dispatches env w s) :
    ¬ NullLink env w s := by
  intro hnull
  obtain ⟨w', hcrash⟩ := (deliver_nullLink_iff env
    (l := l)).mpr ⟨hdispatch.2, hnull⟩
  rcases recvRound_of_complete env (l := l) hdispatch.1 with
    ⟨w₁, hdeliver, _⟩ | ⟨_, hround'⟩
  · rw [hdeliver] at hcrash
    cases hcrash
  · rw [hround'] at hround
    cases hround

/-- The dispatcher uses a NULL link in some call exactly when some round hands
it a frame without a handler for a session without a link. -/
theorem run_nullLink_iff
    {n : Nat} {r : Outcome A}
    (hrun : WhileLoop.run (recvRound env l s) n w = some r) :
    (∃ w', r = .crash .nullLink w') ↔
      ∃ w₁, Rounds env l s w w₁ ∧ Dispatches env w₁ s ∧
        NullLink env w₁ s := by
  induction n generalizing w with
  | zero =>
      cases hrun
  | succ n ih =>
      cases hround : recvRound env l s w with
      | inr r' =>
          rw [WhileLoop.run_done hround, Option.some.injEq] at hrun
          subst hrun
          rw [crash_nullLink_iff_of_inr env hround]
          constructor
          · intro h
            exact ⟨w, (rounds_iff_of_inr env hround).mpr rfl, h⟩
          · rintro ⟨w₁, hrounds, h⟩
            rw [rounds_iff_of_inr env hround] at hrounds
            subst hrounds
            exact h
      | inl w₂ =>
          rw [WhileLoop.run_continue hround] at hrun
          rw [ih hrun]
          constructor
          · rintro ⟨w₁, hrounds, h⟩
            exact ⟨w₁, (rounds_iff_of_inl env hround).mpr (Or.inr hrounds),
              h⟩
          · rintro ⟨w₁, hrounds, hdispatch, hnull⟩
            rw [rounds_iff_of_inl env hround] at hrounds
            rcases hrounds with rfl | hrounds
            · exact absurd hnull (not_nullLink_of_inl env hround hdispatch)
            · exact ⟨w₁, hrounds, hdispatch, hnull⟩

end NullLinks

section Calls

variable {A : Type} (env : Env A)

/-- In a call that turned w into r, nothing was dispatched once link l was
closed, and the dispatcher did not use a NULL link. -/
structure CallOk (l : LinkId) (w : World A) (r : Outcome A) : Prop where
  calm : ∃ events, r.world.trace = events ++ w.trace ∧ Calm l events
  link : ∀ w', r ≠ .crash .nullLink w'

/-- The state w₁ stands in front of a round of the call of OnRecvMsg for link
l, whose session is s. -/
def InCall (l : LinkId) (w : World A) (bytes : List UInt8) (s : SessionId)
    (w₁ : World A) : Prop :=
  (w.links l).session = some s ∧
    ∃ packet, ((touch env w s).recvPacket s).append bytes = .ok packet ∧
      Rounds env l s
        ((touch env w s).setPacket ((touch env w s).sessions s).recvPacket
          packet) w₁

/-- The rounds of the loop take bytes off the packet. -/
theorem recvLoop_returns
    {w : World A}
    (hsound : Sound w)
    (l : LinkId) (s : SessionId) :
    ∃ n, WhileLoop.run (recvRound env l s) n w =
      some (recvLoop env l s w) := by
  have hsome := @WhileLoop.run_isSome _ _ (recvRound env l s) Sound
    (fun w => (w.recvPacket s).size)
    (by
      intro w₁ w₂ hsound₁ hround
      refine ⟨recvRound_keeps_inl (isInvariant_sound env) hsound₁ hround, ?_⟩
      obtain ⟨hfront, _, _, hholds, _⟩ := recvRound_inl env hsound₁ hround
      have hheader : 10 ≤ (w₁.recvPacket s).size := hfront.header
      have hlow : 10 ≤ (w₁.recvPacket s).getLength := hfront.low
      rw [hholds.size_eq, List.length_drop, Buffer.unread_length]
      omega)
    ((w.recvPacket s).size + 1) w hsound (Nat.lt_succ_self _)
  obtain ⟨r, hr⟩ := Option.isSome_iff_exists.mp hsome
  refine ⟨(w.recvPacket s).size + 1, ?_⟩
  simp only [recvLoop, hr]

/-- A call that only closes links. -/
theorem callOk_of_closed
    {l : LinkId} {w : World A} {r : Outcome A} {closed : List LinkId}
    (htrace : r.world.trace = closed.map Event.close ++ w.trace)
    (hcrash : ∀ w', r ≠ .crash .nullLink w') :
    CallOk l w r := by
  refine ⟨⟨closed.map Event.close, htrace, ?_⟩, hcrash⟩
  have hcalm := calm_closed l closed (List.Pairwise.nil : Calm l [])
  rw [List.append_nil] at hcalm
  exact hcalm

/-- The dead link condition for a state whose sessions all have packets. -/
theorem onRecvMsg_callOk_iff
    {w : World A}
    (hsound : Sound w)
    (l : LinkId) (bytes : List UInt8) :
    CallOk l w (onRecvMsg env l w bytes) ↔
      ∀ s w₁, InCall env l w bytes s w₁ → RoundOk env l w₁ s := by
  cases hsession : (w.links l).session with
  | none =>
      constructor
      · rintro _ s w₁ ⟨hs, _⟩
        rw [hsession] at hs
        cases hs
      · intro _
        simp only [onRecvMsg, hsession]
        obtain ⟨closed, htrace, _⟩ := (steady_onError env 0 l w l).trace
        refine callOk_of_closed htrace fun w' hcrash => ?_
        cases hcrash
  | some s =>
      cases happend : ((touch env w s).recvPacket s).append bytes with
      | error e =>
          have herror : ((touch env w s).packets
              ((touch env w s).sessions s).recvPacket).append bytes =
                .error e := happend
          simp only [onRecvMsg, hsession, herror]
          constructor
          · rintro _ t w₁ ⟨hs, packet, hok, _⟩
            rw [hsession] at hs
            cases hs
            rw [happend] at hok
            cases hok
          · intro _
            obtain ⟨closed, htrace⟩ := (mild_touch env w s).trace
            refine callOk_of_closed htrace fun w' hcrash => ?_
            cases hcrash
      | ok packet =>
          rw [onRecvMsg_of_append env hsession happend]
          have hstart : Sound ((touch env w s).setPacket
              ((touch env w s).sessions s).recvPacket packet) :=
            (hsound.mild (mild_touch env w s)).mild (mild_of_eq rfl rfl rfl)
          have htrace : ((touch env w s).setPacket
              ((touch env w s).sessions s).recvPacket packet).trace =
                w.trace := by
            simp only [World.setPacket_trace, touch]
            cases env.kind with
            | tcp =>
                rfl
            | router =>
                rfl
          obtain ⟨n, hrun⟩ := recvLoop_returns env hstart l s
          have hcalm := run_calm_iff env hstart hrun
          have hnull := run_nullLink_iff env hrun
          rw [htrace] at hcalm
          constructor
          · rintro ⟨hcall, hlink⟩ t w₁ ⟨hs, packet', hok, hrounds⟩ hdispatch
            rw [hsession] at hs
            cases hs
            rw [happend] at hok
            cases hok
            refine ⟨?_, hcalm.mp hcall w₁ hrounds hdispatch⟩
            intro hnullLink
            obtain ⟨w', hcrash⟩ :=
              hnull.mpr ⟨w₁, hrounds, hdispatch, hnullLink⟩
            exact hlink w' hcrash
          · intro hrounds
            refine ⟨hcalm.mpr ?_, ?_⟩
            · intro w₁ hround hdispatch
              exact (hrounds s w₁ ⟨hsession, packet, happend, hround⟩
                hdispatch).2
            · intro w' hcrash
              obtain ⟨w₁, hround, hdispatch, hnullLink⟩ :=
                hnull.mp ⟨w', hcrash⟩
              exact (hrounds s w₁ ⟨hsession, packet, happend, hround⟩
                hdispatch).1 hnullLink

/-- Dead links: in every state that a manager reaches and for every read, the
call dispatches nothing behind the close of its link and uses no NULL link
exactly when each of its rounds is in order. -/
theorem recv_callOk_iff
    {app : A} {steps : List Step} {w : World A}
    (hrun : run env (World.initial app) steps = .ok w)
    (l : LinkId) (bytes : List UInt8) :
    CallOk l w (onRecvMsg env l w bytes) ↔
      ∀ s w₁, InCall env l w bytes s w₁ → RoundOk env l w₁ s :=
  onRecvMsg_callOk_iff env (run_sound env hrun) l bytes

/-- One heartbeat on a connection that was just accepted. -/
theorem recv_callOk_heartBeat :
    CallOk 0 (World.greeted Env.bare ())
        (onRecvMsg Env.bare 0 (World.greeted Env.bare ())
          (heartBeatReq 1).bytes) ↔
      ∀ s w₁, InCall Env.bare 0 (World.greeted Env.bare ())
        (heartBeatReq 1).bytes s w₁ → RoundOk Env.bare 0 w₁ s :=
  recv_callOk_iff Env.bare (run_greeted Env.bare () rfl) 0
    (heartBeatReq 1).bytes

end Calls

section UnknownMessages

variable {A : Type} (env : Env A)

/-- OnError detaches the session of the link unless its OnClose throws. -/
theorem link_onError
    {w : World A} {l : LinkId} {s : SessionId}
    (hattached : Attached w l s)
    (hopen : (w.links l).isOpen = true)
    (hclose : (env.onClose w.app s).2 = false) :
    ((onError env l w l).sessions s).link = none := by
  rcases hresult : env.onClose w.app s with ⟨app, throws⟩
  rw [hresult] at hclose
  simp only at hclose
  subst hclose
  have hunregister : ∀ w₁ : World A,
      (unregister env w₁ s).links = w₁.links := by
    intro w₁
    simp only [unregister]
    cases env.kind with
    | tcp =>
        rfl
    | router =>
        rfl
  simp [onError, hopen, onClose, hattached.session, hresult, attachSession,
    attachClosure, releaseSession, hunregister]

variable {l : LinkId} {s : SessionId} {w : World A} {f g : Frame}

/-- A frame with an unknown message id is handed to the dispatcher, closes the
link and detaches the session, and the loop goes on behind it. -/
theorem recvRound_unknown
    (hsound : Sound w)
    (h : Receiving w l s (f.bytes ++ g.bytes))
    (hopen : (w.links l).isOpen = true)
    (hclose : (env.onClose w.app s).2 = false)
    (hpool : ∀ n, (env.pool n).isSome = true)
    (htcp : env.kind = .tcp)
    (hunknown : env.handlers f.id = none)
    (hfirst : (w.sessions s).msgSeq < f.seq)
    (hsecond : f.seq < g.seq) :
    (Dispatches env w s ∧ Closes env l w s ∧ Followed env w s) ∧
      ∃ w₂, recvRound env l s w = .inl w₂ ∧
        Holds w₂ s g.bytes ∧
        (w₂.sessions s).link = none ∧
        (w₂.sessions s).msgSeq = f.seq := by
  have hseq := getSEQ_of_front h.readCursor h.unread
  have hid := getID_of_front h.readCursor h.unread
  have hlength := getLength_of_front h.readCursor h.unread
  have hdrop := drop_of_front h.toHolds
  have hpasses : passes env w s (w.recvPacket s) = true := by
    rw [passes_of_front env h.toHolds]
    simp only [Kind.accepts, htcp, hfirst, decide_true]
  have hdispatch : Dispatches env w s :=
    ⟨(frontComplete_iff h.toHolds).mpr ⟨f, g.bytes, rfl⟩, hpasses⟩
  have hnone : frontHandler env w s = none := by
    simp only [frontHandler, findHandler, hid, hunknown]
  have hcloses : Closes env l w s := by
    refine ⟨hopen, ?_⟩
    rw [hnone]
    exact h.link
  have hfollowed : Followed env w s := by
    refine ⟨hpool _, [], g, [], [], ?_, ?_, ?_⟩
    · rw [hlength, hdrop]
      simp
    · simp only [Kind.accepts, seqBehind, htcp, hseq, hsecond, decide_true]
    · intro i hi
      cases hi
  obtain ⟨w₂, hround⟩ :=
    recvRound_of_followed env hsound hdispatch hcloses hfollowed
  obtain ⟨_, w₁, hdeliver, hholds, hadvanced, _⟩ :=
    recvRound_inl env hsound hround
  rw [hlength, hdrop] at hholds
  refine ⟨⟨hdispatch, hcloses, hfollowed⟩, w₂, hround, hholds, ?_, ?_⟩
  · rw [hadvanced.link_eq]
    rw [deliver_of_passes env hpasses] at hdeliver
    have hlink : (((w.log (.examine s (w.recvPacket s))).log
        (.dispatch s (w.recvPacket s))).sessions s).link = some l := h.link
    simp only [frontHandler, atDispatcher] at hnone
    simp only [dispatch, hnone, noHandler, hlink, Outcome.bind_ok]
      at hdeliver
    cases hdeliver
    have hdetached := link_onError env
      (w := (w.log (.examine s (w.recvPacket s))).log
        (.dispatch s (w.recvPacket s)))
      ⟨h.session, h.link⟩ hopen hclose
    simp only [storeSeq, htcp, World.setSession_sessions,
      Function.update_self]
    exact hdetached
  · rw [hadvanced.msgSeq_eq, deliver_msgSeq env hpasses hdeliver]
    simp only [seqBehind, htcp, hseq]

/-- A message that no handler is registered for. -/
def unknownReq (msgSeq : Nat) : Frame :=
  Frame.write msgSeq 100 [] emptyBody_fits

/-- Two unknown messages in one read: the second one is dispatched although the
first one has closed the link, and the dispatcher dies of the NULL link. -/
theorem unknownReqs_not_callOk :
    (∃ w', onRecvMsg Env.bare 0 (World.greeted Env.bare ())
        ((unknownReq 1).bytes ++ (unknownReq 2).bytes) =
          .crash .nullLink w') ∧
      ¬ ∃ events, (onRecvMsg Env.bare 0 (World.greeted Env.bare ())
          ((unknownReq 1).bytes ++ (unknownReq 2).bytes)).world.trace =
            events ++ (World.greeted Env.bare ()).trace ∧ Calm 0 events := by
  have hgreeted := greeted_receiving Env.bare () rfl
  have hsound := run_sound Env.bare (run_greeted Env.bare () rfl)
  have hopen := greeted_isOpen Env.bare () rfl
  have hseq := greeted_msgSeq Env.bare () rfl
  have htouch := receiving_touch Env.bare hgreeted
  have hfits : ([] : List UInt8).length +
      ((unknownReq 1).bytes ++ (unknownReq 2).bytes).length ≤
        Buffer.maxSize := by
    decide
  obtain ⟨packet, happend, hholds⟩ := htouch.toHolds.append hfits
  rw [List.nil_append] at hholds
  have hstart : Sound ((touch Env.bare (World.greeted Env.bare ()) 0).setPacket
      ((touch Env.bare (World.greeted Env.bare ()) 0).sessions 0).recvPacket
        packet) :=
    (hsound.mild (mild_touch Env.bare _ 0)).mild (mild_of_eq rfl rfl rfl)
  obtain ⟨⟨hdispatch, hcloses, hfollowed⟩, w₂, hround, hholds₂, hlink₂,
      hseq₂⟩ :=
    recvRound_unknown Env.bare (f := unknownReq 1) (g := unknownReq 2) hstart
      ⟨hholds, htouch.session, htouch.link⟩ hopen rfl (fun _ => rfl) rfl rfl
      (by
        rw [World.setPacket_sessions, touch_msgSeq, hseq]
        decide)
      (by decide)
  obtain ⟨n, hrun⟩ := recvLoop_returns Env.bare hstart 0 0
  rw [onRecvMsg_of_append Env.bare hgreeted.session happend]
  refine ⟨?_, ?_⟩
  · apply (run_nullLink_iff Env.bare hrun).mpr
    have hholds₂' : Holds w₂ 0 ((unknownReq 2).bytes ++ []) := by
      rw [List.append_nil]
      exact hholds₂
    refine ⟨w₂, (rounds_iff_of_inl Env.bare hround).mpr
      (Or.inr Relation.ReflTransGen.refl), ⟨?_, ?_⟩, ?_, hlink₂⟩
    · exact (frontComplete_iff hholds₂').mpr ⟨unknownReq 2, [], rfl⟩
    · rw [passes_of_front Env.bare hholds₂', hseq₂]
      decide
    · have hid := getID_of_front hholds₂'.readCursor hholds₂'.unread
      simp only [frontHandler, findHandler, hid]
      rfl
  · intro hcalm
    have hall := (run_calm_iff Env.bare hstart hrun).mp hcalm
    exact hall _ Relation.ReflTransGen.refl hdispatch ⟨hcloses, hfollowed⟩

end UnknownMessages

end Tcp
end Gamnet
