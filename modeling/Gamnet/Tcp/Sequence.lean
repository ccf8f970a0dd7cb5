import Gamnet.Tcp.Invariant

/-!
# At-most-once dispatch in order

The sequence number of a session is compared in front of the handler and stored
behind it. In between, the handler may throw, close the link, or move the session
to another link, and retransmitted frames may arrive on any link later.

`Ordered` is the invariant that survives all of this: the numbers dispatched to a
session since it was accepted decrease from the latest one back, and none of them
is above the stored number.
-/

namespace Gamnet
namespace Tcp

section Lives

/-- The sequence numbers dispatched to session s since it was accepted last, in
a trace that lists the latest event first; the latest number comes first. -/
def life (s : SessionId) : List Event → List Nat
  | [] => []
  | .accept t :: es => if t = s then [] else life s es
  | .dispatch t p :: es =>
      if t = s then p.getSEQ :: life s es else life s es
  | .examine _ _ :: es => life s es
  | .close _ :: es => life s es

/-- The sequence numbers of the frames dispatched to the session object s since
its last OnAccept, in the order of dispatch. -/
def World.dispatchedSeqs {A : Type} (w : World A) (s : SessionId) :
    List Nat :=
  (life s w.trace).reverse

theorem life_closed
    (s : SessionId) (closed : List LinkId) (es : List Event) :
    life s (closed.map Event.close ++ es) = life s es := by
  induction closed with
  | nil =>
      rfl
  | cons l closed ih =>
      exact ih

variable {A : Type}

/-- The numbers dispatched to each session decrease from the latest one
back. -/
def Descending (w : World A) : Prop :=
  ∀ s, (life s w.trace).Pairwise (· > ·)

/-- Besides, none of them is above the stored number. -/
structure Ordered (w : World A) : Prop where
  descending : Descending w
  le_msgSeq : ∀ s, ∀ n ∈ life s w.trace, n ≤ (w.sessions s).msgSeq

theorem ordered_initial
    (app : A) :
    Ordered (World.initial app) := by
  refine ⟨fun _ => List.Pairwise.nil, ?_⟩
  intro s n hn
  cases hn

theorem life_mild
    {w w' : World A}
    (hmild : Mild w w')
    (s : SessionId) :
    life s w'.trace = life s w.trace := by
  obtain ⟨closed, htrace⟩ := hmild.trace
  rw [htrace, life_closed]

theorem Ordered.mild
    {w w' : World A}
    (h : Ordered w)
    (hmild : Mild w w') :
    Ordered w' := by
  refine ⟨?_, ?_⟩
  · intro s
    rw [life_mild hmild]
    exact h.descending s
  · intro s n hn
    rw [life_mild hmild] at hn
    rw [hmild.msgSeq]
    exact h.le_msgSeq s n hn

variable (env : Env A)

/-- Behind the dispatcher, but in front of the store, the numbers are still
descending: the frame had passed the test. -/
theorem descending_dispatch
    {w : World A}
    (h : Ordered w)
    (cur : LinkId) (s : SessionId) (packet : Packet)
    (hpasses : (w.sessions s).msgSeq < packet.getSEQ) :
    Descending (dispatch env cur w s packet).world := by
  intro t
  have hsteady := steady_dispatch env s cur w packet
  rw [life_mild hsteady.mild]
  simp only [World.log_trace, life]
  split
  · rename_i hst
    subst hst
    refine List.Pairwise.cons ?_ (h.descending s)
    intro n hn
    exact Nat.lt_of_le_of_lt (h.le_msgSeq s n hn) hpasses
  · exact h.descending t

/-- Behind the store the dispatched number is the stored one. -/
theorem ordered_storeSeq
    {w w₁ : World A}
    (h : Ordered w)
    (htcp : env.kind = .tcp)
    {cur : LinkId} {s : SessionId} {packet : Packet}
    (hpasses : (w.sessions s).msgSeq < packet.getSEQ)
    (hdispatch : dispatch env cur w s packet = .ok w₁) :
    Ordered (storeSeq env w₁ s packet.getSEQ) := by
  have hdescending := descending_dispatch env h cur s packet hpasses
  have hsteady := steady_dispatch env s cur w packet
  rw [hdispatch, Outcome.world_ok] at hdescending hsteady
  simp only [storeSeq, htcp]
  refine ⟨hdescending, ?_⟩
  intro t n hn
  rw [World.setSession_trace, life_mild hsteady.mild] at hn
  simp only [World.log_trace, life] at hn
  by_cases hts : t = s
  · subst hts
    rw [World.setSession_sessions, Function.update_self]
    simp only [if_true, List.mem_cons] at hn
    rcases hn with rfl | hn
    · exact Nat.le_refl _
    · exact Nat.le_of_lt (Nat.lt_of_le_of_lt (h.le_msgSeq t n hn) hpasses)
  · rw [if_neg (Ne.symm hts)] at hn
    rw [World.setSession_sessions, Function.update_of_ne hts,
      hsteady.msgSeq t]
    exact h.le_msgSeq t n hn

theorem ordered_log_examine
    {w : World A}
    (h : Ordered w)
    (s : SessionId) (packet : Packet) :
    Ordered (w.log (.examine s packet)) :=
  ⟨h.descending, h.le_msgSeq⟩

/-- The Tcp manager lets a frame pass when its number is above the last one. -/
theorem lt_of_passes
    (htcp : env.kind = .tcp)
    {w : World A} {s : SessionId} {packet : Packet}
    (hpasses : passes env w s packet = true) :
    (w.sessions s).msgSeq < packet.getSEQ := by
  simp only [passes, htcp, decide_eq_true_eq] at hpasses
  exact hpasses

/-- The invariant for the Tcp manager. A state in which the process died has
passed the dispatcher but not the store. -/
theorem isInvariant_ordered
    (htcp : env.kind = .tcp) :
    IsInvariant env Ordered Descending where
  weaken := fun _ h => h.descending
  mild := fun _ _ h hmild => h.mild hmild
  deliver_ok := by
    intro cur w s w' h _ hdeliver
    have hlog := ordered_log_examine h s (w.recvPacket s)
    by_cases hpasses : passes env w s (w.recvPacket s) = true
    · obtain ⟨w₁, hdispatch, rfl⟩ := deliver_ok_of_passes env hpasses hdeliver
      exact ordered_storeSeq env hlog htcp (lt_of_passes env htcp hpasses) hdispatch
    · rw [deliver_of_not_passes env hpasses] at hdeliver
      cases hdeliver
      exact hlog
  deliver_world := by
    intro cur w s h _
    have hlog := ordered_log_examine h s (w.recvPacket s)
    by_cases hpasses : passes env w s (w.recvPacket s) = true
    · have hdescending := descending_dispatch env hlog cur s (w.recvPacket s)
        (lt_of_passes env htcp hpasses)
      rw [deliver_of_passes env hpasses]
      refine Outcome.world_bind (R := Descending) (fun w₁ hw₁ t => ?_) hdescending
      rw [storeSeq_trace]
      exact hw₁ t
    · rw [deliver_of_not_passes env hpasses]
      exact hlog.descending
  accept := by
    intro w s x h hseq _
    refine ⟨?_, ?_⟩
    · intro t
      simp only [World.log_trace, World.setSession_trace, life]
      split
      · exact List.Pairwise.nil
      · exact h.descending t
    · intro t n hn
      simp only [World.log_trace, World.setSession_trace, life] at hn
      split at hn
      · cases hn
      · rename_i hst
        simp only [World.log_sessions, World.setSession_sessions]
        rw [Function.update_of_ne (Ne.symm hst)]
        exact h.le_msgSeq t n hn

/-- At-most-once dispatch in order: in every run of a Tcp manager, wherever it
ends, the numbers dispatched to a session object since its OnAccept strictly
increase. -/
theorem dispatchedSeqs_increasing
    (htcp : env.kind = .tcp)
    (app : A) (steps : List Step) (s : SessionId) :
    ((run env (World.initial app) steps).world.dispatchedSeqs s).Pairwise
      (· < ·) := by
  have hkeeps := run_invariant (isInvariant_ordered env htcp) steps
    (ordered_initial app)
  have hdescending := hkeeps.world fun _ hw => hw.descending
  exact List.pairwise_reverse.mpr (hdescending s)

/-- A heartbeat that is retransmitted, and reordered ones. -/
theorem dispatchedSeqs_increasing_heartBeats :
    ((run Env.bare (World.initial ())
      [.accept 0 (some 0), .recv 0 (heartBeatReq 2).bytes,
        .recv 0 (heartBeatReq 2).bytes, .recv 0 (heartBeatReq 1).bytes,
        .recv 0 (heartBeatReq 3).bytes]).world.dispatchedSeqs 0).Pairwise
      (· < ·) :=
  dispatchedSeqs_increasing Env.bare rfl () _ 0

end Lives

end Tcp
end Gamnet
