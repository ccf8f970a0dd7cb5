import Gamnet.Tcp.Segmentation

/-!
# One frame and any handler

A frame that passes the sequence number test is handed to the dispatcher once,
however it is cut into reads. Its handler may close links, move attachments or
die, and the pool may be exhausted: no other frame is behind it.
-/

namespace Gamnet
namespace Tcp

section OneFrame

variable {A : Type} (env : Env A)
variable {l : LinkId} {s : SessionId} {w : World A} {u bytes : List UInt8} {f : Frame}

/-- A read is queued in front of the loop. -/
theorem onRecvMsg_queued
    (h : Receiving w l s u)
    (hfits : u.length + bytes.length ≤ Buffer.maxSize) :
    ∃ w₀, onRecvMsg env l w bytes = recvLoop env l s w₀ ∧
      Receiving w₀ l s (u ++ bytes) ∧
      w₀.trace = w.trace ∧
      (w₀.sessions s).msgSeq = (w.sessions s).msgSeq := by
  have htouch := receiving_touch env h
  obtain ⟨packet, happend, hholds⟩ := htouch.toHolds.append hfits
  exact ⟨_, onRecvMsg_of_append env h.session happend, ⟨hholds, htouch.session, htouch.link⟩,
    touch_trace env w s, touch_msgSeq env w s s⟩

/-- A read behind which the frame is not complete. -/
theorem onRecvMsg_of_part
    (h : Receiving w l s u)
    (hpart : u ++ bytes <+: f.bytes)
    (hproper : u ++ bytes ≠ f.bytes) :
    ∃ w', onRecvMsg env l w bytes = .ok w' ∧
      Receiving w' l s (u ++ bytes) ∧
      w'.trace = w.trace ∧
      (w'.sessions s).msgSeq = (w.sessions s).msgSeq := by
  have hwait := f.isFrame.waiting_of_initial hpart hproper
  have hfits : u.length + bytes.length ≤ Buffer.maxSize := by
    have hle := hpart.length_le
    have hlt := f.length_lt
    rw [List.length_append] at hle
    exact Nat.le_of_lt (Nat.lt_of_le_of_lt hle hlt)
  obtain ⟨w₀, hcall, h₀, htrace, hseq⟩ := onRecvMsg_queued env h hfits
  refine ⟨w₀, ?_, h₀, htrace, hseq⟩
  rw [hcall, recvLoop, WhileLoop.run_done (recvRound_of_waiting env l h₀.toHolds hwait)]

/-- The read that completes the frame hands it to the dispatcher, whatever its
handler does. -/
theorem onRecvMsg_of_whole
    (h : Receiving w l s u)
    (hwhole : u ++ bytes = f.bytes)
    (haccepts : env.kind.accepts (w.sessions s).msgSeq f = true) :
    ∃ p, (onRecvMsg env l w bytes).world.dispatched s = w.dispatched s ++ [p] ∧ Shows p f := by
  have hfits : u.length + bytes.length ≤ Buffer.maxSize := by
    rw [← List.length_append, hwhole]
    exact Nat.le_of_lt f.length_lt
  obtain ⟨w₀, hcall, h₀, htrace, hseq⟩ := onRecvMsg_queued env h hfits
  rw [hwhole, ← List.append_nil f.bytes] at h₀
  have hpasses : passes env w₀ s (w₀.recvPacket s) = true := by
    rw [passes_of_front env h₀.toHolds, hseq]
    exact haccepts
  have hdispatched := dispatched_deliver_of_passes env l w₀ s hpasses
  refine ⟨w₀.recvPacket s, ?_, shows_of_front h₀.readCursor h₀.unread⟩
  rw [← World.dispatched_of_trace_eq htrace, ← hdispatched, hcall]
  cases hdeliver : deliver env l w₀ s with
  | ok w₁ =>
      obtain ⟨w₂, hloop, _, hadvanced, _⟩ := recvLoop_single env h₀.toHolds hdeliver
      rw [hloop]
      exact World.dispatched_of_trace_eq hadvanced.trace s
  | throws w₁ =>
      have hround : recvRound env l s w₀ = .inr (.throws w₁) := by
        rw [recvRound_of_frame env h₀.toHolds, hdeliver]
      rw [recvLoop, WhileLoop.run_done hround]
  | crash e w₁ =>
      have hround : recvRound env l s w₀ = .inr (.crash e w₁) := by
        rw [recvRound_of_frame env h₀.toHolds, hdeliver]
      rw [recvLoop, WhileLoop.run_done hround]

/-- A frame that does not pass the test is not dispatched. -/
theorem onRecvMsg_discards
    (h : Receiving w l s u)
    (hwhole : u ++ bytes = f.bytes)
    (haccepts : env.kind.accepts (w.sessions s).msgSeq f = false) :
    (onRecvMsg env l w bytes).world.dispatched s = w.dispatched s := by
  have hfits : u.length + bytes.length ≤ Buffer.maxSize := by
    rw [← List.length_append, hwhole]
    exact Nat.le_of_lt f.length_lt
  obtain ⟨w₀, hcall, h₀, htrace, hseq⟩ := onRecvMsg_queued env h hfits
  rw [hwhole, ← List.append_nil f.bytes] at h₀
  have hpasses : ¬ passes env w₀ s (w₀.recvPacket s) = true := by
    rw [passes_of_front env h₀.toHolds, hseq, haccepts]
    exact Bool.false_ne_true
  obtain ⟨w₂, hloop, _, hadvanced, _⟩ :=
    recvLoop_single env h₀.toHolds (deliver_of_not_passes env hpasses)
  rw [hcall, hloop, Outcome.world_ok, World.dispatched_of_trace_eq hadvanced.trace,
    World.dispatched_log_examine, World.dispatched_of_trace_eq htrace]

/-- Reads that carry the rest of a frame hand it to the dispatcher once. -/
theorem onRecvMsgs_dispatched
    {reads : List (List UInt8)}
    (h : Receiving w l s u)
    (hcut : u ++ reads.flatten = f.bytes)
    (hproper : u ≠ f.bytes)
    (hreads : ∀ bytes ∈ reads, bytes ≠ [])
    (haccepts : env.kind.accepts (w.sessions s).msgSeq f = true) :
    ∃ p, (onRecvMsgs env l w reads).world.dispatched s = w.dispatched s ++ [p] ∧
      Shows p f := by
  induction reads generalizing w u with
  | nil =>
      rw [List.flatten_nil, List.append_nil] at hcut
      exact absurd hcut hproper
  | cons bytes reads ih =>
      rw [List.flatten_cons, ← List.append_assoc] at hcut
      rw [onRecvMsgs_cons]
      by_cases hwhole : u ++ bytes = f.bytes
      · -- No byte is left for another read.
        have hlater : reads.flatten = [] := by
          rw [hwhole] at hcut
          exact List.append_right_eq_self.mp hcut
        have hnil : reads = [] := by
          rw [List.flatten_eq_nil_iff] at hlater
          rw [List.eq_nil_iff_forall_not_mem]
          intro bytes' hmem
          exact hreads bytes' (List.mem_cons_of_mem _ hmem) (hlater bytes' hmem)
        obtain ⟨p, hp, hshows⟩ := onRecvMsg_of_whole env h hwhole haccepts
        refine ⟨p, ?_, hshows⟩
        rw [hnil, ← hp]
        cases onRecvMsg env l w bytes <;> rfl
      · obtain ⟨w₁, hcall, h₁, htrace, hseq⟩ :=
          onRecvMsg_of_part env h ⟨reads.flatten, hcut⟩ hwhole
        rw [← hseq] at haccepts
        obtain ⟨p, hp, hshows⟩ := ih h₁ hcut hwhole
          (fun bytes' hmem => hreads bytes' (List.mem_cons_of_mem _ hmem)) haccepts
        refine ⟨p, ?_, hshows⟩
        rw [hcall, Outcome.bind_ok, hp, World.dispatched_of_trace_eq htrace]

end OneFrame

end Tcp
end Gamnet
