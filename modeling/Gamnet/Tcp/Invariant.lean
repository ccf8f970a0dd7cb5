import Gamnet.Tcp.Rounds

/-!
# The invariant rule for runs

Apart from delivering a frame and accepting a session, no piece of the manager
changes a sequence number or adds anything but closed links to the trace
(`Mild`). A property of states that survives mild changes, deliveries and accepts
therefore holds in every state of every run (`run_invariant`).

The rule distinguishes the property of the states between two steps from the
weaker one of a state in which the process died. Its first use is `Sound`: the
packet of every session exists. With it the receive loop always ends.
-/

namespace Gamnet
namespace Tcp

section MildChanges

variable {A : Type}

/-- What is left alone outside deliveries and accepts. -/
structure Mild (w w' : World A) : Prop where
  msgSeq : ∀ t, (w'.sessions t).msgSeq = (w.sessions t).msgSeq
  created : w.created ≤ w'.created
  recvPacket : ∀ t,
    (∃ u, (w'.sessions t).recvPacket = (w.sessions u).recvPacket) ∨
      (w'.sessions t).recvPacket < w'.created
  trace : ∃ closed : List LinkId,
    w'.trace = closed.map Event.close ++ w.trace

theorem Steady.mild
    {s : SessionId} {w w' : World A}
    (h : Steady s w w') :
    Mild w w' := by
  obtain ⟨closed, htrace, _⟩ := h.trace
  exact ⟨h.msgSeq, h.created, fun t => Or.inl (h.shared t), closed, htrace⟩

/-- Changes that keep the sessions and the trace. -/
theorem mild_of_eq
    {w w' : World A}
    (hsessions : w'.sessions = w.sessions)
    (hcreated : w'.created = w.created)
    (htrace : w'.trace = w.trace) :
    Mild w w' := by
  refine ⟨?_, Nat.le_of_eq hcreated.symm, ?_, [], htrace⟩
  · intro t
    rw [hsessions]
  · intro t
    rw [hsessions]
    exact Or.inl ⟨t, rfl⟩

variable (env : Env A)

theorem mild_touch
    (w : World A) (s : SessionId) :
    Mild w (touch env w s) := by
  simp only [touch]
  cases env.kind with
  | tcp =>
      exact (steady_setSession s w s { w.sessions s with expireTime := w.now }
        (Or.inl rfl) rfl).mild
  | router =>
      exact (Steady.refl s w).mild

theorem mild_runClosure
    (w : World A) (l : LinkId) :
    Mild w (runClosure w l) := by
  simp only [runClosure]
  cases (w.links l).closures with
  | nil =>
      exact (Steady.refl 0 w).mild
  | cons session rest =>
      exact ((steady_setLink 0 w l
        { w.links l with closures := rest } rfl).trans
          (steady_attachClosure 0 _ l session)).mild

/-- The end of a round that goes on. -/
theorem mild_advance
    {cur : LinkId} {w w' : World A} {s : SessionId} {n : Nat}
    (h : advance env cur w s n = .inl w') :
    Mild w w' := by
  simp only [advance] at h
  split at h
  · cases hpool : env.pool w.created with
    | none =>
        simp only [createPacket, World.setPacket, hpool] at h
        cases h
    | some data =>
        simp only [createPacket, World.setPacket, hpool] at h
        split at h
        · cases h
        · cases h
          refine ⟨?_, Nat.le_succ _, ?_, [], rfl⟩
          · intro t
            by_cases ht : t = s
            · subst ht
              simp [World.setSession]
            · simp [World.setSession, ht]
          · intro t
            by_cases ht : t = s
            · subst ht
              right
              simp [World.setSession]
            · left
              exact ⟨t, by simp [World.setSession, ht]⟩
  · split at h
    · cases h
      exact mild_of_eq rfl rfl rfl
    · cases h
      exact mild_of_eq rfl rfl rfl

/-- The end of a round that ends the loop. -/
theorem mild_advance_end
    {cur : LinkId} {w : World A} {s : SessionId} {n : Nat} {r : Outcome A}
    (h : advance env cur w s n = .inr r) :
    Mild w r.world := by
  rw [advance_inr env h]
  have herror := (steady_onError env s cur
    (w.setPacket (w.sessions s).recvPacket
      ((w.packets (w.sessions s).recvPacket).remove n)) cur).mild
  exact ⟨herror.msgSeq, herror.created, herror.recvPacket, herror.trace⟩

end MildChanges

section Rule

variable {A : Type} (env : Env A)

/-- A property I of the states between two steps, and a weaker property J of a
state in which the process died. The loop delivers complete frames only. -/
structure IsInvariant (I J : World A → Prop) : Prop where
  weaken : ∀ w, I w → J w
  mild : ∀ w w', I w → Mild w w' → I w'
  deliver_ok : ∀ cur w s w', I w → (w.recvPacket s).HoldsFrame →
    deliver env cur w s = .ok w' → I w'
  deliver_world : ∀ cur w s, I w → (w.recvPacket s).HoldsFrame →
    J (deliver env cur w s).world
  accept : ∀ w s x, I w → x.msgSeq = 0 → x.recvPacket < w.created →
    I ((w.setSession s x).log (.accept s))

/-- What the rule proves of the result of a call. -/
def Outcome.Keeps (I J : World A → Prop) : Outcome A → Prop
  | .ok w => I w
  | .throws w => J w
  | .crash _ w => J w

namespace Outcome.Keeps

variable {I J : World A → Prop} {r : Outcome A}

theorem of_world
    (hweaken : ∀ w, I w → J w)
    (h : I r.world) :
    r.Keeps I J := by
  cases r with
  | ok w =>
      exact h
  | throws w =>
      exact hweaken w h
  | crash c w =>
      exact hweaken w h

/-- The weaker property holds wherever the call ends. -/
theorem world
    (hweaken : ∀ w, I w → J w)
    (h : r.Keeps I J) :
    J r.world := by
  cases r with
  | ok w =>
      exact hweaken w h
  | throws w =>
      exact h
  | crash c w =>
      exact h

/-- Statements behind one another. -/
theorem bind
    {k : World A → Outcome A}
    (h : r.Keeps I J)
    (hk : ∀ w, I w → (k w).Keeps I J) :
    (r.bind k).Keeps I J := by
  cases r with
  | ok w =>
      exact hk w h
  | throws w =>
      exact h
  | crash c w =>
      exact h

end Outcome.Keeps

variable {env} {I J : World A → Prop} (hI : IsInvariant env I J)

include hI

theorem recvRound_keeps_inl
    {cur : LinkId} {s : SessionId} {w w' : World A}
    (hw : I w)
    (h : recvRound env cur s w = .inl w') :
    I w' := by
  rcases recvRound_cases env cur s w with
    hend | hend | ⟨hframe, ⟨w₁, hdeliver, hround⟩ | hround⟩
  · rw [hend] at h
    cases h
  · rw [hend] at h
    cases h
  · rw [hround] at h
    exact hI.mild w₁ w' (hI.deliver_ok cur w s w₁ hw hframe hdeliver)
      (mild_advance env h)
  · rw [hround] at h
    cases h

theorem recvRound_keeps_inr
    {cur : LinkId} {s : SessionId} {w : World A} {r : Outcome A}
    (hw : I w)
    (h : recvRound env cur s w = .inr r) :
    r.Keeps I J := by
  rcases recvRound_cases env cur s w with
    hend | hend | ⟨hframe, ⟨w₁, hdeliver, hround⟩ | hround⟩
  · rw [hend] at h
    cases h
    exact hw
  · rw [hend] at h
    cases h
    exact hI.mild w _ hw (steady_onError env s cur w cur).mild
  · rw [hround] at h
    have hw₁ := hI.deliver_ok cur w s w₁ hw hframe hdeliver
    exact Outcome.Keeps.of_world hI.weaken (hI.mild w₁ _ hw₁ (mild_advance_end env h))
  · rw [hround] at h
    cases h
    have hworld := hI.deliver_world cur w s hw hframe
    cases hdeliver : deliver env cur w s with
    | ok w₁ =>
        exact hI.deliver_ok cur w s w₁ hw hframe hdeliver
    | throws w₁ =>
        rw [hdeliver] at hworld
        exact hworld
    | crash c w₁ =>
        rw [hdeliver] at hworld
        exact hworld

theorem onRecvMsg_keeps_invariant
    {l : LinkId} {w : World A} {bytes : List UInt8}
    (hw : I w) :
    (onRecvMsg env l w bytes).Keeps I J := by
  cases hsession : (w.links l).session with
  | none =>
      simp only [onRecvMsg, hsession]
      exact hI.mild w _ hw (steady_onError env 0 l w l).mild
  | some s =>
      have htouch := hI.mild w _ hw (mild_touch env w s)
      simp only [onRecvMsg, hsession]
      split
      · exact hI.weaken _ htouch
      · rename_i packet _
        have hstart : I ((touch env w s).setPacket
            ((touch env w s).sessions s).recvPacket packet) :=
          hI.mild _ _ htouch (mild_of_eq rfl rfl rfl)
        simp only [recvLoop]
        split
        · rename_i r hrun
          exact WhileLoop.run_rule I (fun r => r.Keeps I J)
            (fun _ _ hs hround => recvRound_keeps_inl hI hs hround)
            (fun _ _ hs hround => recvRound_keeps_inr hI hs hround)
            _ hstart hrun
        · exact hI.weaken _ hstart

/-- The reads of one connection, one after the other. -/
theorem onRecvMsgs_keeps_invariant
    {l : LinkId} {w : World A}
    (reads : List (List UInt8))
    (hw : I w) :
    (onRecvMsgs env l w reads).Keeps I J := by
  induction reads generalizing w with
  | nil =>
      exact hw
  | cons bytes reads ih =>
      rw [onRecvMsgs_cons]
      exact (onRecvMsg_keeps_invariant hI hw).bind fun _ hw₁ => ih hw₁

theorem onAccept_keeps_invariant
    {l : LinkId} {w : World A} {pooled : Option SessionId}
    (hw : I w) :
    (onAccept env w l pooled).Keeps I J := by
  cases pooled with
  | none =>
      simp only [onAccept]
      exact hI.mild w _ hw (steady_onError env 0 l w l).mild
  | some s =>
      simp only [onAccept]
      cases hcreate : createPacket env { w with keys := w.keys + 1 } with
      | none =>
          exact hI.weaken w hw
      | some created =>
          obtain ⟨p, w₁⟩ := created
          have hquiet := quiet_createPacket env hcreate
          have hkeys : I { w with keys := w.keys + 1 } :=
            hI.mild w _ hw (mild_of_eq rfl rfl rfl)
          have hw₁ : I w₁ := hI.mild _ w₁ hkeys (hquiet.steady 0).mild
          have hp : p < w₁.created := by
            obtain ⟨rfl, data, rfl⟩ := createPacket_eq_some env hcreate
            exact Nat.lt_succ_self _
          have haccept := hI.accept w₁ s
            { sessionKey := w₁.keys
              sessionToken := ""
              expireTime := 0
              link := none
              msgSeq := 0
              recvPacket := p } hw₁ rfl hp
          exact hI.mild _ _ haccept
            (steady_attachSession s l _ l (some s)).mild

theorem step_keeps_invariant
    {w : World A} {a : Step}
    (hw : I w) :
    (step env w a).Keeps I J := by
  cases a with
  | accept l pooled =>
      exact onAccept_keeps_invariant hI
        (hI.mild w _ hw (mild_of_eq rfl rfl rfl))
  | recv l bytes =>
      exact onRecvMsg_keeps_invariant hI hw
  | closure l =>
      exact hI.mild w _ hw (mild_runClosure w l)
  | strand l busy =>
      exact hI.mild w _ hw (mild_of_eq rfl rfl rfl)
  | call cur c =>
      exact hI.mild w _ hw (steady_command env 0 cur w c).mild
  | expire key =>
      exact hI.mild w _ hw (mild_of_eq rfl rfl rfl)
  | tick now =>
      exact hI.mild w _ hw (mild_of_eq rfl rfl rfl)

/-- The invariant rule: the property holds in every state between two steps of
a run, and its weaker form where the run dies. -/
theorem run_invariant
    {w : World A}
    (steps : List Step)
    (hw : I w) :
    (run env w steps).Keeps I J := by
  induction steps generalizing w with
  | nil =>
      exact hw
  | cons a steps ih =>
      rw [run_cons]
      exact (step_keeps_invariant hI hw).bind fun _ hw₁ => ih hw₁

end Rule

section SoundStates

variable {A : Type} (env : Env A)

/-- The packet of every session exists. -/
def Sound (w : World A) : Prop :=
  ∀ s, (w.sessions s).recvPacket < w.created

theorem sound_initial
    (app : A) :
    Sound (World.initial app) :=
  fun _ => Nat.one_pos

theorem Sound.mild
    {w w' : World A}
    (h : Sound w)
    (hmild : Mild w w') :
    Sound w' := by
  intro t
  rcases hmild.recvPacket t with ⟨u, hu⟩ | hnew
  · rw [hu]
    exact Nat.lt_of_lt_of_le (h u) hmild.created
  · exact hnew

theorem Sound.deliver
    {w : World A}
    (h : Sound w)
    (cur : LinkId) (s : SessionId) :
    Sound (deliver env cur w s).world := by
  have hdispatch : Sound
      (dispatch env cur (w.log (.examine s (w.recvPacket s))) s
        (w.recvPacket s)).world :=
    Sound.mild (w := (w.log (.examine s (w.recvPacket s))).log
      (.dispatch s (w.recvPacket s))) h (steady_dispatch env s cur _ _).mild
  by_cases hpasses : passes env w s (w.recvPacket s) = true
  · rw [deliver_of_passes env hpasses]
    refine Outcome.world_bind (R := Sound) (fun w₁ hw₁ t => ?_) hdispatch
    rw [storeSeq_packetId, storeSeq_created]
    exact hw₁ t
  · rw [deliver_of_not_passes env hpasses]
    exact h

theorem isInvariant_sound :
    IsInvariant env Sound Sound where
  weaken := fun _ h => h
  mild := fun _ _ h hmild => h.mild hmild
  deliver_ok := by
    intro cur w s w' h _ hdeliver
    have hsound := h.deliver env cur s
    rw [hdeliver] at hsound
    exact hsound
  deliver_world := fun cur _ s h _ => h.deliver env cur s
  accept := by
    intro w s x h _ hpacket t
    by_cases ht : t = s
    · subst ht
      simpa using hpacket
    · simpa [ht] using h t

/-- In every state that a manager reaches the packet of every session
exists. -/
theorem run_sound
    {app : A} {steps : List Step} {w : World A}
    (hrun : run env (World.initial app) steps = .ok w) :
    Sound w := by
  have h := run_invariant (isInvariant_sound env) steps (sound_initial app)
  rw [hrun] at h
  exact h

end SoundStates

end Tcp
end Gamnet
