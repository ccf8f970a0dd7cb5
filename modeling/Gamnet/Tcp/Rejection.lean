import Gamnet.Tcp.Takeover

/-!
# Rejected requests

A rejected Reconnect_Req detaches its requester, and touches no other session when it is
delivered (`sessions_of_rejected`). Its AttachSession(NULL) may have to wait on the strand of
the link, though: it then detaches whatever session the link has by that time. The history
says which closures are such ones (`Traced`), and a run is safe exactly when each of them
finds no session of somebody else (`Settles`).
-/

namespace Gamnet
namespace Tcp

section Rejections

variable {A : Type} (env : Env A)

/-- The frame at the front is a Reconnect_Req that takes no session over. -/
def Rejected (w : World A) (s : SessionId) : Prop :=
  passes env w s (w.recvPacket s) = true ∧
    env.handlers (w.recvPacket s).getID = some .reconnectReq ∧
    ∀ l other, demand env w s ≠ .takeOver l other

variable {U : LinkId → Prop} {V : SessionId → Prop} {w : World A} {s : SessionId}

/-- The error answer detaches the requester only. -/
theorem sessions_rejectReconnect
    (h : Tied U V w)
    {cur l : LinkId}
    (hlink : (w.sessions s).link = some l)
    (code : ErrorCode)
    {t : SessionId} (ht : t ≠ s) :
    (rejectReconnect env cur w s l code).sessions t = w.sessions t := by
  simp only [rejectReconnect, (linkAnswer_keeps env _ l _).1, attachSession]
  split
  · simp only [attachClosure, World.setLink_sessions, releaseSession, h.session l s hlink,
      World.setSession_sessions, Function.update_of_ne ht]
  · rfl

theorem sessions_recvReconnectReq
    (h : Tied U V w)
    (cur : LinkId) {packet : Packet}
    (hnone : ∀ l, (w.sessions s).link = some l → takeover env w packet = none)
    {t : SessionId} (ht : t ≠ s) :
    (recvReconnectReq env cur w s packet).world.sessions t = w.sessions t := by
  cases hlink : (w.sessions s).link with
  | none =>
      simp only [recvReconnectReq, hlink, Outcome.world_crash]
  | some l =>
      have hrefused := hnone l hlink
      simp only [takeover] at hrefused
      simp only [recvReconnectReq, hlink]
      split
      · exact sessions_rejectReconnect env h hlink _ ht
      · rfl
      · rename_i key token hparse
        simp only [hparse] at hrefused
        split
        · exact sessions_rejectReconnect env h hlink _ ht
        · rename_i other hkey
          simp only [hkey] at hrefused
          split
          · exact sessions_rejectReconnect env h hlink _ ht
          · rename_i htoken
            rw [if_neg htoken] at hrefused
            cases hrefused

/-- A rejected request changes no other session. -/
theorem sessions_of_rejected
    (h : Tied U V w)
    (hrejected : Rejected env w s)
    (cur : LinkId)
    {t : SessionId} (ht : t ≠ s) :
    (deliver env cur w s).world.sessions t = w.sessions t := by
  obtain ⟨hpasses, hhandler, hnone⟩ := hrejected
  have hstart : Tied U V ((w.log (.examine s (w.recvPacket s))).log
      (.dispatch s (w.recvPacket s))) :=
    h.still (Still.of_eq rfl rfl rfl rfl)
  have hrefused : ∀ l, (w.sessions s).link = some l →
      takeover env w (w.recvPacket s) = none := by
    intro l hlink
    cases htake : takeover env w (w.recvPacket s) with
    | none =>
        rfl
    | some other =>
        refine absurd ?_ (hnone l other)
        simp only [demand, if_pos hpasses, dispatchDemand, hhandler, handlerDemand, hlink, htake]
  have hcall := sessions_recvReconnectReq env hstart cur hrefused ht
  have hdispatch : (dispatch env cur (w.log (.examine s (w.recvPacket s))) s
      (w.recvPacket s)).world.sessions t = w.sessions t := by
    simp only [dispatch, findHandler, hhandler, getHandler, Outcome.caught_world, runHandler]
    exact hcall
  rw [deliver_of_passes env hpasses]
  refine Outcome.world_bind (R := fun w₁ => w₁.sessions t = w.sessions t)
    (fun w₁ hw₁ => ?_) hdispatch
  rw [(private_storeSeq env w₁ s _).others t ht, hw₁]

end Rejections

section SoundRuns

variable {A : Type} (env : Env A)

/-- A delivery keeps the content of every packet. -/
theorem packets_deliver
    (cur : LinkId) (w : World A) (s : SessionId)
    {p : PacketId} (hp : p < w.created) :
    (deliver env cur w s).world.packets p = w.packets p := by
  by_cases hpasses : passes env w s (w.recvPacket s) = true
  · have hdispatch := (steady_dispatch env s cur (w.log (.examine s (w.recvPacket s)))
      (w.recvPacket s)).packets p hp
    rw [deliver_of_passes env hpasses]
    refine Outcome.world_bind (R := fun w₁ => w₁.packets p = w.packets p)
      (fun w₁ hw₁ => ?_) hdispatch
    rw [storeSeq_packets]
    exact hw₁
  · rw [deliver_of_not_passes env hpasses]
    rfl

variable {w : World A}

theorem Sound.act
    (h : Sound w)
    (a : Act) :
    Sound (act env w a) := by
  cases a with
  | append cur bytes =>
      simp only [Tcp.act, appendRead]
      split
      · exact h.mild (steady_onError env 0 cur w cur).mild
      · rename_i s _
        have htouch := h.mild (mild_touch env w s)
        split
        · exact htouch
        · exact htouch
  | deliver cur s =>
      exact h.deliver env cur s
  | advance cur s n =>
      simp only [Tcp.act, advanceRead]
      cases hadvance : advance env cur w s n with
      | inl w' =>
          exact h.mild (mild_advance env hadvance)
      | inr r =>
          exact h.mild (mild_advance_end env hadvance)
  | closure l =>
      exact h.mild (mild_runClosure w l)
  | strand l busy =>
      simp only [Tcp.act]
      split
      · exact h
      · exact h
  | close cur l =>
      exact h.mild (steady_onError env 0 cur w l).mild
  | send s buf =>
      exact h.mild (steady_command env 0 0 w (.send s buf)).mild
  | expire key =>
      exact h
  | tick now =>
      exact h

theorem sound_onAcceptFrom
    (h : Sound w)
    (cur l : LinkId) (pooled : Option SessionId) :
    Sound (Manager.onAcceptFrom env cur w l pooled).world := by
  cases pooled with
  | none =>
      exact h.mild (steady_onError env 0 cur w l).mild
  | some s =>
      simp only [Manager.onAcceptFrom]
      cases hcreate : createPacket env { w with keys := w.keys + 1 } with
      | none =>
          exact h
      | some created =>
          obtain ⟨p, w₁⟩ := created
          have hkeys : Sound { w with keys := w.keys + 1 } := h
          have hcreated := hkeys.mild ((quiet_createPacket env hcreate).steady 0).mild
          have hp : p < w₁.created := by
            obtain ⟨rfl, data, rfl⟩ := createPacket_eq_some env hcreate
            exact Nat.lt_succ_self _
          have haccept := (isInvariant_sound env).accept w₁ s
            { sessionKey := w₁.keys
              sessionToken := ""
              expireTime := 0
              link := none
              msgSeq := 0
              recvPacket := p } hcreated rfl hp
          exact haccept.mild (steady_attachSession s cur _ l (some s)).mild

/-- In every state of a manager the packet of every session exists. -/
theorem Sound.step
    {m : Manager A}
    (h : Sound m.world)
    (a : Manager.Step) :
    Sound (m.step env a).world := by
  cases a with
  | accept cur =>
      simp only [Manager.step, Manager.accept]
      split
      · exact h
      · rename_i l _ _
        have hopen : Sound (openLink m.world l) := h
        split
        · exact sound_onAcceptFrom env hopen cur l none
        · exact sound_onAcceptFrom env hopen cur l _
  | act a =>
      exact Sound.act env h a
  | releaseLink l =>
      simp only [Manager.step]
      split
      · exact h
      · exact h
  | releaseSession s =>
      simp only [Manager.step]
      split
      · exact h
      · exact h

end SoundRuns

section QueuedClosures

variable {A : Type}

/-- Closures were queued behind the others, each of which is as stated. -/
def Queues (P : Option SessionId → Prop) (w w' : World A) : Prop :=
  ∀ l, ∃ added, (w'.links l).closures = (w.links l).closures ++ added ∧ ∀ c ∈ added, P c

variable {P : Option SessionId → Prop} {w w' : World A}

theorem Queues.of_closures
    (hclosures : ∀ l, (w'.links l).closures = (w.links l).closures) :
    Queues P w w' := by
  intro l
  refine ⟨[], ?_, ?_⟩
  · rw [hclosures, List.append_nil]
  · intro c hc
    cases hc

theorem Queues.still
    (hstill : Still w w') :
    Queues P w w' :=
  Queues.of_closures hstill.closures

theorem Queues.trans
    {w₁ w₂ w₃ : World A}
    (h₁ : Queues P w₁ w₂)
    (h₂ : Queues P w₂ w₃) :
    Queues P w₁ w₃ := by
  intro l
  obtain ⟨added₁, heq₁, hadded₁⟩ := h₁ l
  obtain ⟨added₂, heq₂, hadded₂⟩ := h₂ l
  refine ⟨added₁ ++ added₂, ?_, ?_⟩
  · rw [heq₂, heq₁, List.append_assoc]
  · intro c hc
    rcases List.mem_append.mp hc with hc | hc
    · exact hadded₁ c hc
    · exact hadded₂ c hc

theorem queues_attachSession
    {session : Option SessionId}
    (hsession : P session)
    (cur : LinkId) (w : World A) (l : LinkId) :
    Queues P w (attachSession cur w l session) := by
  simp only [attachSession]
  split
  · refine Queues.of_closures ?_
    intro k
    rw [links_attachClosure]
    by_cases hk : k = l
    · rw [hk, Function.update_self]
    · rw [Function.update_of_ne hk]
  · intro k
    rw [World.setLink_links]
    by_cases hk : k = l
    · refine ⟨[session], ?_, ?_⟩
      · rw [hk, Function.update_self]
      · intro c hc
        rw [List.mem_singleton.mp hc]
        exact hsession
    · refine ⟨[], ?_, ?_⟩
      · rw [Function.update_of_ne hk, List.append_nil]
      · intro c hc
        cases hc

theorem Queues.loosens
    {cur : LinkId}
    (hnone : P none)
    (hloosens : Loosens cur w w') :
    Queues P w w' :=
  hloosens.rule (fun _ _ hstill h => h.trans (Queues.still hstill))
    (fun _ _ _ h => h.trans (queues_attachSession hnone cur _ _))
    (Queues.still (Still.refl w))

variable (env : Env A)

theorem rejectedBy_eq_some
    {s t : SessionId} :
    rejectedBy env w s = some t ↔ t = s ∧ Rejected env w s := by
  simp only [rejectedBy, Rejected]
  split
  · rename_i l other hdemand
    refine ⟨fun h => (by cases h), fun h => absurd hdemand (h.2.2.2 l other)⟩
  · rename_i hpasses hhandler hnot
    refine ⟨fun h => ⟨(Option.some.inj h).symm, hpasses, hhandler, hnot⟩, ?_⟩
    rintro ⟨rfl, _⟩
    rfl
  · rename_i hnot hother
    refine ⟨fun h => (by cases h), fun h => (hnot h.2.1 h.2.2.1).elim⟩

/-- What a delivery queues: for a rejected request only AttachSession(NULL). -/
theorem queues_deliver
    (htcp : env.kind = .tcp)
    (hnever : env.NeverAttaches)
    (cur : LinkId) (w : World A) (s : SessionId) :
    Queues (fun c => (rejectedBy env w s).isSome → c = none) w (deliver env cur w s).world := by
  obtain ⟨w₁, hstill, hloosens⟩ := deliver_demand env htcp hnever cur w s
  refine (Queues.still hstill).trans (Queues.trans ?_ (Queues.loosens (fun _ => rfl) hloosens))
  cases hdemand : demand env w s with
  | nothing =>
      exact Queues.still (Still.refl w₁)
  | connect =>
      refine Queues.of_closures ?_
      intro l
      simp only [Demand.meet, (quiet_registerSession env w₁ s).links]
  | takeOver l other =>
      have haccepted : rejectedBy env w s = none := by
        simp only [rejectedBy, hdemand]
      have hover : Queues (fun c => (rejectedBy env w s).isSome → c = none) w₁
          (handOver env cur w₁ s other) :=
        (Queues.loosens (fun _ => rfl) (loosens_leaveLink cur w₁ other)).trans
          (Queues.of_closures (still_giveRecvPacket (leaveLink cur w₁ other) other
            ((leaveLink cur w₁ other).sessions s).recvPacket).closures)
      refine (hover.trans (queues_attachSession ?_ cur _ l)).trans
        (Queues.still (still_acceptReconnect env cur w₁ s l other))
      rw [haccepted]
      intro h
      cases h

end QueuedClosures

section TracedClosures

variable {A : Type} {env : Env A}

/-- The history knows the closures that wait. Those of rejected requests are
AttachSession(NULL). -/
def Traced (h : History) (w : World A) : Prop :=
  ∀ l, List.Forall₂ (fun cause c => cause.isSome → c = none) (h.waiting l) (w.links l).closures

theorem Traced.queue
    {h : History} {w w' : World A} {cause : Option SessionId}
    (htraced : Traced h w)
    (hqueues : Queues (fun c => cause.isSome → c = none) w w') :
    Traced (h.queue w w' cause) w' := by
  intro l
  obtain ⟨added, heq, hadded⟩ := hqueues l
  have hnew : List.Forall₂ (fun cause c => cause.isSome → c = none)
      (List.replicate added.length cause) added := by
    rw [List.forall₂_iff_get]
    refine ⟨List.length_replicate, ?_⟩
    intro i _ hi
    simpa using hadded added[i] (List.getElem_mem hi)
  simp only [History.queue, heq, List.length_append, Nat.add_sub_cancel_left]
  exact List.rel_append (htraced l) hnew

/-- Accepting queues the closure of a session, if any. -/
theorem queues_accept
    (htcp : env.kind = .tcp)
    {m : Manager A}
    (htied : m.Tied)
    (cur : LinkId) :
    Queues (fun _ => True) m.world (m.accept env cur).world := by
  simp only [Manager.accept]
  split
  · exact Queues.still (Still.refl m.world)
  · rename_i l links hlinks
    obtain ⟨hpooled, _⟩ := Pool.inUse_create hlinks
    have hopen : Queues (fun _ => True) m.world (openLink m.world l) := by
      refine Queues.of_closures ?_
      intro k
      simp only [openLink, World.setLink_links]
      by_cases hk : k = l
      · rw [hk, Function.update_self]
        by_contra hclosures
        exact hpooled (htied.usedClosures l (Ne.symm hclosures))
      · rw [Function.update_of_ne hk]
    split
    · exact hopen.trans (Queues.loosens trivial (loosens_onError env htcp cur _ l))
    · rename_i s sessions hsessions
      rcases Manager.onAcceptFrom_some env cur (openLink m.world l) l s with
        hcrash | ⟨w₁, x, hstill, _, _, hworld⟩
      · simp only [hcrash, Outcome.world_crash]
        exact hopen
      · simp only [hworld]
        have hset : Queues (fun _ => True) w₁ ((w₁.setSession s x).log (.accept s)) :=
          Queues.of_closures (fun _ => rfl)
        exact ((hopen.trans (Queues.still hstill)).trans hset).trans
          (queues_attachSession trivial cur _ l)

/-- A demand does not change what is known of the closures. -/
theorem waiting_record
    (w : World A) (s : SessionId) (h : History) (d : Demand) :
    (d.record env w s h).waiting = h.waiting := by
  cases d with
  | nothing =>
      rfl
  | connect =>
      rfl
  | takeOver l other =>
      rfl

/-- The closure that runs is the first one that waits. -/
theorem Traced.closure
    {r : Manager A × History}
    (htraced : Traced r.2 r.1.world)
    (l : LinkId) :
    Traced (recordStep env r (.act (.closure l))).2
      (recordStep env r (.act (.closure l))).1.world := by
  intro k
  have hfront := htraced l
  simp only [recordStep, History.unqueue, Manager.step, act, runClosure]
  split
  · rename_i hclosures
    rw [hclosures] at hfront
    by_cases hk : k = l
    · subst hk
      rw [Function.update_self, hclosures]
      cases hwaiting : r.2.waiting k with
      | nil =>
          exact List.Forall₂.nil
      | cons cause causes =>
          rw [hwaiting] at hfront
          cases hfront
    · rw [Function.update_of_ne hk]
      exact htraced k
  · rename_i session rest hclosures
    rw [hclosures] at hfront
    rw [links_attachClosure, World.setLink_links]
    by_cases hk : k = l
    · subst hk
      rw [Function.update_self, Function.update_self, Function.update_self]
      cases hwaiting : r.2.waiting k with
      | nil =>
          rw [hwaiting] at hfront
          cases hfront
      | cons cause causes =>
          rw [hwaiting] at hfront
          cases hfront with
          | cons _ hrest =>
              exact hrest
    · rw [Function.update_of_ne hk, Function.update_of_ne hk, Function.update_of_ne hk]
      exact htraced k

/-- Every step keeps the history and the closures in agreement. -/
theorem Traced.step
    {r : Manager A × History}
    (htcp : env.kind = .tcp)
    (hnever : env.NeverAttaches)
    (htied : r.1.Tied)
    (htraced : Traced r.2 r.1.world)
    (a : Manager.Step) :
    Traced (recordStep env r a).2 (recordStep env r a).1.world := by
  have hplain : ∀ w', Queues (fun _ => True) r.1.world w' →
      Traced (r.2.queue r.1.world w' none) w' := by
    intro w' hqueues
    refine htraced.queue ?_
    intro l
    obtain ⟨added, heq, _⟩ := hqueues l
    refine ⟨added, heq, ?_⟩
    intro c _ hsome
    cases hsome
  cases a with
  | accept cur =>
      exact hplain _ (queues_accept htcp htied cur)
  | act a =>
      cases a with
      | append cur bytes =>
          exact hplain _ (Queues.loosens trivial (loosens_appendRead env htcp cur _ bytes))
      | deliver cur s =>
          have htaken : Traced ((demand env r.1.world s).record env r.1.world s r.2)
              r.1.world := by
            intro l
            rw [waiting_record]
            exact htraced l
          exact htaken.queue (queues_deliver env htcp hnever cur r.1.world s)
      | advance cur s n =>
          exact hplain _ (Queues.loosens trivial (loosens_advanceRead env htcp cur _ s n))
      | closure l =>
          exact htraced.closure l
      | strand l busy =>
          refine hplain _ ?_
          simp only [Manager.step, act]
          split
          · refine Queues.of_closures ?_
            intro k
            rw [World.setLink_links]
            by_cases hk : k = l
            · rw [hk, Function.update_self]
            · rw [Function.update_of_ne hk]
          · exact Queues.still (Still.refl _)
      | close cur l =>
          exact hplain _ (Queues.loosens trivial (loosens_onError env htcp cur _ l))
      | send s buf =>
          exact hplain _ (Queues.still (still_send env 0 _ s buf))
      | expire key =>
          exact hplain _ (Queues.of_closures (fun _ => rfl))
      | tick now =>
          exact hplain _ (Queues.of_closures (fun _ => rfl))
  | releaseLink l =>
      refine hplain _ ?_
      simp only [Manager.step]
      split
      · exact Queues.still (Still.refl _)
      · exact Queues.still (Still.refl _)
  | releaseSession s =>
      refine hplain _ ?_
      simp only [Manager.step]
      split
      · exact Queues.still (Still.refl _)
      · exact Queues.still (Still.refl _)

end TracedClosures

section SafeTakeovers

variable {A : Type} (env : Env A)

/-- What AttachSession(NULL) does to a session. -/
theorem sessions_detach
    (w : World A) (l : LinkId) (t : SessionId) :
    (attachClosure w l none).sessions t =
      if (w.links l).session = some t then { w.sessions t with link := none }
      else w.sessions t := by
  simp only [attachClosure, World.setLink_sessions, releaseSession]
  cases hold : (w.links l).session with
  | none =>
      simp only [reduceCtorEq, if_false]
  | some old =>
      simp only [World.setSession_sessions, Option.some.injEq]
      by_cases ht : old = t
      · subst ht
        rw [Function.update_self, if_pos rfl]
      · rw [Function.update_of_ne (Ne.symm ht), if_neg ht]

theorem packets_detach
    (w : World A) (l : LinkId) :
    (attachClosure w l none).packets = w.packets := by
  simp only [attachClosure, World.setLink_packets, releaseSession]
  split
  · rfl
  · rfl

/-- Only a Reconnect_Req with the key of a registered session and its last token attaches
the session, and no token was accepted twice. -/
structure SafeTakeover (h : History) (m : Manager A) : Prop where
  attached : ∀ cur s l other, InRegistry m.world other →
    Attaches m.world (deliver env cur m.world s).world l other →
      env.handlers (m.world.recvPacket s).getID = some .reconnectReq ∧
        (m.world.sessions s).link = some l ∧
        ∃ token,
          env.parse (reconnectText (m.world.recvPacket s)) =
            .request (m.world.sessions other).sessionKey token ∧
          h.lastIssued other = some token ∧
          (recordStep env (m, h) (.act (.deliver cur s))).2.accepted =
            (other, token) :: h.accepted
  once : (h.accepted.map Prod.snd).Nodup

/-- What a run keeps. -/
structure Supervised (r : Manager A × History) : Prop where
  tied : r.1.Tied
  sound : Sound r.1.world
  current : Current env r.2 r.1.world
  traced : Traced r.2 r.1.world

theorem supervised_listen
    (maxSession : Nat) (app : A) :
    Supervised env (Manager.listen maxSession app, History.empty) :=
  ⟨Manager.tied_listen maxSession app, sound_initial app, current_initial env app,
    fun _ => List.Forall₂.nil⟩

theorem Supervised.step
    {r : Manager A × History}
    (htcp : env.kind = .tcp)
    (hnever : env.NeverAttaches)
    (hdistinct : ∀ n k n' k', env.token n k = env.token n' k' → n = n')
    (h : Supervised env r)
    (a : Manager.Step) :
    Supervised env (recordStep env r a) := by
  refine ⟨?_, ?_, h.current.step htcp hnever hdistinct h.tied a,
    h.traced.step htcp hnever h.tied a⟩
  · rw [recordStep_fst]
    exact h.tied.step env htcp hnever a
  · rw [recordStep_fst]
    exact h.sound.step env a

theorem Supervised.safeTakeover
    {r : Manager A × History}
    (htcp : env.kind = .tcp)
    (hnever : env.NeverAttaches)
    (h : Supervised env r) :
    SafeTakeover env r.2 r.1 := by
  refine ⟨?_, h.current.nodup⟩
  intro cur s l other hother hattaches
  have hdemand := demand_of_attaches env htcp hnever hattaches
  obtain ⟨hhandler, hlink, htake⟩ := demand_eq_takeOver env hdemand
  obtain ⟨key, hparse, hkey⟩ := takeover_eq_some env htake
  rw [← (h.tied.registered key other hkey).2] at hparse
  refine ⟨hhandler, hlink, _, hparse, h.current.last other hother, ?_⟩
  simp only [recordStep, hdemand, Demand.record]
  rfl

/-- The other registered sessions keep their link, their token, their recv_packet with its
content, and their msg_seq. -/
def Spares (s : SessionId) (w w' : World A) : Prop :=
  ∀ t, InRegistry w t → t ≠ s →
    w'.sessions t = w.sessions t ∧ w'.recvPacket t = w.recvPacket t

/-- The step belongs to a rejected Reconnect_Req of session s: it is its delivery, or the
AttachSession(NULL) that it queued. -/
def OnBehalf (r : Manager A × History) (s : SessionId) : Manager.Step → Prop
  | .act (.deliver _ requester) => requester = s ∧ Rejected env r.1.world s
  | .act (.closure l) => (r.2.waiting l).head? = some (some s)
  | _ => False

/-- A step of a rejected request spares the other registered sessions. -/
def Harmless (r : Manager A × History) (a : Manager.Step) : Prop :=
  ∀ s, OnBehalf env r s a → Spares s r.1.world (r.1.step env a).world

/-- When the AttachSession(NULL) of a rejected request runs from the queue of a link, the link
has no session, or that of the requester, or one that is not registered or that has no link
any more. -/
def Settles (r : Manager A × History) : Manager.Step → Prop
  | .act (.closure l) =>
      ∀ s, (r.2.waiting l).head? = some (some s) →
        ∀ t, (r.1.world.links l).session = some t →
          t = s ∨ ¬ InRegistry r.1.world t ∨ (r.1.world.sessions t).link = none
  | _ => True

/-- The delivery of a rejected request is harmless. -/
theorem Supervised.harmless_deliver
    {r : Manager A × History}
    (h : Supervised env r)
    (cur : LinkId) (s : SessionId) :
    Harmless env r (.act (.deliver cur s)) := by
  rintro _ ⟨rfl, hrejected⟩ t _ hts
  have hsessions : ((r.1.step env (.act (.deliver cur s))).world).sessions t =
      r.1.world.sessions t :=
    sessions_of_rejected env h.tied hrejected cur hts
  refine ⟨hsessions, ?_⟩
  simp only [World.recvPacket, hsessions]
  exact packets_deliver env cur _ s (h.sound t)

/-- The AttachSession(NULL) of a rejected request takes its link from the session that the
link has. -/
theorem Supervised.harmless_closure
    {r : Manager A × History}
    (h : Supervised env r)
    (l : LinkId) :
    Harmless env r (.act (.closure l)) ↔ Settles r (.act (.closure l)) := by
  refine forall_congr' fun s => forall_congr' fun hhead => ?_
  obtain ⟨causes, hwaiting⟩ := List.head?_eq_some_iff.mp hhead
  have hfront := h.traced l
  rw [hwaiting] at hfront
  obtain ⟨session, rest, hnone, _, hclosures⟩ := List.forall₂_cons_left_iff.mp hfront
  cases hnone rfl
  have hrun : (r.1.step env (.act (.closure l))).world =
      attachClosure (r.1.world.setLink l { r.1.world.links l with closures := rest }) l none := by
    simp only [Manager.step, act, runClosure, hclosures]
  have hsessions : ∀ t, (r.1.step env (.act (.closure l))).world.sessions t =
      if (r.1.world.links l).session = some t then
        { r.1.world.sessions t with link := none }
      else r.1.world.sessions t := by
    intro t
    rw [hrun, sessions_detach, World.setLink_links, Function.update_self, World.setLink_sessions]
  have hpackets : (r.1.step env (.act (.closure l))).world.packets = r.1.world.packets := by
    rw [hrun, packets_detach, World.setLink_packets]
  refine ⟨fun hspares t hsession => ?_, fun hsettles t hin hts => ?_⟩
  · by_cases hts : t = s
    · exact Or.inl hts
    · by_cases hin : InRegistry r.1.world t
      · have hkept := (hspares t hin hts).1
        rw [hsessions, if_pos hsession] at hkept
        exact Or.inr (Or.inr (congrArg Session.link hkept).symm)
      · exact Or.inr (Or.inl hin)
  · have hkept : (r.1.step env (.act (.closure l))).world.sessions t = r.1.world.sessions t := by
      rw [hsessions]
      split
      · rename_i hsession
        rcases hsettles t hsession with hsame | hout | hlink
        · exact absurd hsame hts
        · exact absurd hin hout
        · rw [← hlink]
      · rfl
    refine ⟨hkept, ?_⟩
    simp only [World.recvPacket, hkept, hpackets]

/-- A step is harmless, if and only if it settles. -/
theorem Supervised.harmless_iff
    {r : Manager A × History}
    (h : Supervised env r)
    (a : Manager.Step) :
    Harmless env r a ↔ Settles r a := by
  cases a with
  | act a =>
      cases a with
      | deliver cur s =>
          exact iff_of_true (h.harmless_deliver env cur s) trivial
      | closure l =>
          exact h.harmless_closure env l
      | append cur bytes =>
          exact iff_of_true (fun _ hs => hs.elim) trivial
      | advance cur s n =>
          exact iff_of_true (fun _ hs => hs.elim) trivial
      | strand l busy =>
          exact iff_of_true (fun _ hs => hs.elim) trivial
      | close cur l =>
          exact iff_of_true (fun _ hs => hs.elim) trivial
      | send s buf =>
          exact iff_of_true (fun _ hs => hs.elim) trivial
      | expire key =>
          exact iff_of_true (fun _ hs => hs.elim) trivial
      | tick now =>
          exact iff_of_true (fun _ hs => hs.elim) trivial
  | accept cur =>
      exact iff_of_true (fun _ hs => hs.elim) trivial
  | releaseLink l =>
      exact iff_of_true (fun _ hs => hs.elim) trivial
  | releaseSession s =>
      exact iff_of_true (fun _ hs => hs.elim) trivial

/-- A run that is safe: what holds of the requests in every state, and no step of a rejected
request touches another registered session. -/
def SafeRun : Manager A × History → List Manager.Step → Prop
  | r, [] => SafeTakeover env r.2 r.1
  | r, a :: steps =>
      SafeTakeover env r.2 r.1 ∧ Harmless env r a ∧ SafeRun (recordStep env r a) steps

/-- A run in which every step settles. -/
def SettledRun : Manager A × History → List Manager.Step → Prop
  | _, [] => True
  | r, a :: steps => Settles r a ∧ SettledRun (recordStep env r a) steps

theorem Supervised.safeRun_iff
    {r : Manager A × History}
    (htcp : env.kind = .tcp)
    (hnever : env.NeverAttaches)
    (hdistinct : ∀ n k n' k', env.token n k = env.token n' k' → n = n')
    (h : Supervised env r)
    (steps : List Manager.Step) :
    SafeRun env r steps ↔ SettledRun env r steps := by
  induction steps generalizing r with
  | nil =>
      exact iff_of_true (h.safeTakeover env htcp hnever) trivial
  | cons a steps ih =>
      have hnext := ih (h.step env htcp hnever hdistinct a)
      simp only [SafeRun, SettledRun, hnext, h.harmless_iff env a,
        h.safeTakeover env htcp hnever, true_and]

theorem Supervised.recordRun
    (htcp : env.kind = .tcp)
    (hnever : env.NeverAttaches)
    (hdistinct : ∀ n k n' k', env.token n k = env.token n' k' → n = n')
    (maxSession : Nat) (app : A) (steps : List Manager.Step) :
    Supervised env (recordRun env (Manager.listen maxSession app) steps) := by
  have hfold : ∀ r : Manager A × History, Supervised env r →
      Supervised env (steps.foldl (recordStep env) r) := by
    induction steps with
    | nil =>
        intro r hr
        exact hr
    | cons a steps ih =>
        intro r hr
        rw [List.foldl_cons]
        exact ih _ (hr.step env htcp hnever hdistinct a)
  exact hfold _ (supervised_listen env maxSession app)

end SafeTakeovers

section StaleClosures

variable {A : Type} (env : Env A)
variable {w : World A} {cur l : LinkId} {s other : SessionId} {f : Frame}

theorem links_attachSession_of_ne
    {session : Option SessionId} {k : LinkId}
    (hk : k ≠ l) :
    (attachSession cur w l session).links k = w.links k := by
  simp only [attachSession]
  split
  · rw [links_attachClosure, Function.update_of_ne hk]
  · rw [World.setLink_links, Function.update_of_ne hk]

/-- A session that was elsewhere is taken over on link l at once. -/
theorem attached_of_takeOver
    (hdemand : demand env w s = .takeOver l other)
    (helsewhere : (w.sessions other).link ≠ some l) :
    Attached (deliver env l w s).world l other ∧
      ((deliver env l w s).world.links l).closures = (w.links l).closures ∧
      ((deliver env l w s).world.links l).busy = (w.links l).busy ∧
      (deliver env l w s).world.registry = w.registry ∧
      ∀ t, t ≠ other → ((deliver env l w s).world.sessions t).sessionToken =
        (w.sessions t).sessionToken := by
  obtain ⟨w₁, hbefore, hafter⟩ := deliver_takeOver env l hdemand
  obtain ⟨hregistry, _, _, htokens⟩ := tokens_acceptReconnect env l w₁ s l other
  have hlink : (handOver env l w₁ s other).links l = w₁.links l := by
    have hleave : (leaveLink l w₁ other).links l = w₁.links l := by
      cases hold : (w₁.sessions other).link with
      | none =>
          simp only [leaveLink, hold]
      | some old =>
          simp only [leaveLink, hold]
          refine links_attachSession_of_ne ?_
          rintro rfl
          rw [hbefore.link] at hold
          exact helsewhere hold
    exact hleave
  have hover := (still_acceptReconnect env l w₁ s l other).trans hafter
  simp only [attachSession, true_or, if_true] at hover
  refine ⟨⟨?_, ?_⟩, ?_, ?_, ?_, ?_⟩
  · rw [hover.session, links_attachClosure, Function.update_self]
  · rw [hover.link, link_attachClosure, if_pos rfl]
  · rw [hover.closures, links_attachClosure, Function.update_self, hlink, hbefore.closures]
  · rw [hover.busy, links_attachClosure, Function.update_self, hlink, hbefore.busy]
  · rw [hafter.registry, hregistry, hbefore.registry]
  · intro t ht
    rw [hafter.sessionToken, htokens t ht, hbefore.sessionToken]

/-- The next read on the link goes to the session that was taken over. -/
theorem receiving_takenOver
    {bytes : List UInt8}
    (htcp : env.kind = .tcp)
    (h : Receiving w l s (f.bytes ++ []))
    (hvalid : ValidReconnect env w s f other)
    (helsewhere : (w.sessions other).link ≠ some l)
    (hlength : bytes.length ≤ Buffer.maxSize) :
    ∃ w', acts env w [.deliver l s, .advance l s f.length, .append l bytes] = w' ∧
      Receiving w' l other bytes ∧
      (w'.sessions other).msgSeq = (w.sessions other).msgSeq ∧
      (w'.links l).closures = (w.links l).closures ∧
      (w'.links l).busy = (w.links l).busy ∧
      w'.registry = w.registry ∧
      ∀ t, t ≠ s → t ≠ other → (w'.sessions t).sessionToken = (w.sessions t).sessionToken := by
  obtain ⟨w₁, hdeliver, hholds, _, hover⟩ := deliver_reconnect env htcp h hvalid
  obtain ⟨hattached, hclosures, hbusy, hregistry, htokens⟩ := attached_of_takeOver env
    (demand_reconnect env htcp h hvalid) helsewhere
  rw [hdeliver, Outcome.world_ok] at hattached hclosures hbusy hregistry htokens
  obtain ⟨hprivate₂, hholds₂, _, hpacket⟩ := private_advanceRead env (l := l) hholds
  generalize hadvance : advanceRead env l w₁ s f.length = w₂ at hprivate₂ hholds₂ hpacket
  have hother := hprivate₂.others other hvalid.other_ne
  have hshared : (w₂.sessions other).recvPacket = (w₂.sessions s).recvPacket := by
    rw [hother, hover.recvPacket, hpacket]
  have hreceiving : Receiving w₂ l other [] := by
    refine ⟨⟨?_, ?_, ?_⟩, ?_, ?_⟩
    · rw [hshared]
      exact hholds₂.created
    · simp only [World.recvPacket, hshared]
      exact hholds₂.unread
    · simp only [World.recvPacket, hshared]
      exact hholds₂.readCursor
    · rw [hprivate₂.links, hattached.session]
    · rw [hother, hattached.link]
  obtain ⟨hread, hprivate₃, hseq₃⟩ := receiving_appendRead env hreceiving hlength
  refine ⟨appendRead env l w₂ bytes, ?_, hread, ?_, ?_, ?_, ?_, ?_⟩
  · simp only [acts, List.foldl_cons, List.foldl_nil, act, hdeliver, Outcome.world_ok, hadvance]
  · rw [hseq₃, hother, hover.msgSeq other hvalid.other_ne]
  · rw [hprivate₃.links, hprivate₂.links, hclosures]
  · rw [hprivate₃.links, hprivate₂.links, hbusy]
  · rw [hprivate₃.registry, hprivate₂.registry, hregistry]
  · intro t hts hto
    rw [hprivate₃.others t hto, hprivate₂.others t hts, htokens t hto]

/-- A Reconnect_Req that the JSON reader does not read, whatever is behind it. -/
structure BadReconnect (w : World A) (s : SessionId) (f : Frame) : Prop where
  id : f.id = msgIdReconnectReq
  handler : env.handlers msgIdReconnectReq = some .reconnectReq
  seq : (w.sessions s).msgSeq < f.seq
  malformed : ∀ trailing, env.parse (f.body ++ trailing) = .malformed

/-- The loop of another link rejects the request of a session whose link is busy: its
AttachSession(NULL) waits. -/
theorem deliver_bad
    {rest : List UInt8}
    (htcp : env.kind = .tcp)
    (h : Receiving w l s (f.bytes ++ rest))
    (hbad : BadReconnect env w s f)
    (hne : l ≠ cur)
    (hbusy : (w.links l).busy = true) :
    rejectedBy env w s = some s ∧
      ∃ w', deliver env cur w s = .ok w' ∧
        Holds w' s (f.bytes ++ rest) ∧
        (w'.sessions s).msgSeq = f.seq ∧
        Private s (w.setLink l { w.links l with closures := (w.links l).closures ++ [none] })
          w' := by
  obtain ⟨trailing, htext⟩ := reconnectText_of_front h.readCursor h.unread
  have hshows := shows_of_front h.readCursor h.unread
  have hpasses : passes env w s (w.recvPacket s) = true := by
    have hfront := passes_of_front env h.toHolds
    simp only [Kind.accepts, htcp, hbad.seq, decide_true] at hfront
    exact hfront
  have hhandler : env.handlers (w.recvPacket s).getID = some .reconnectReq := by
    rw [hshows.getID, hbad.id, hbad.handler]
  have hparse : env.parse (reconnectText (w.recvPacket s)) = .malformed := by
    rw [htext, hbad.malformed]
  have hwaits : ¬ (l = cur ∨ (w.links l).busy = false) := by
    rw [hbusy]
    simpa using hne
  refine ⟨?_, ?_⟩
  · rw [rejectedBy_eq_some]
    refine ⟨rfl, hpasses, hhandler, ?_⟩
    intro k other hdemand
    obtain ⟨_, _, htake⟩ := demand_eq_takeOver env hdemand
    simp only [takeover, hparse, reduceCtorEq] at htake
  · have hqueue : ∀ w₁ : World A, w₁.links = w.links →
        attachSession cur w₁ l none =
          w₁.setLink l { w.links l with closures := (w.links l).closures ++ [none] } := by
      intro w₁ hlinks
      simp only [attachSession, hlinks, if_neg hwaits]
    have hcall : (dispatch env cur (w.log (.examine s (w.recvPacket s))) s (w.recvPacket s)) =
        .ok (rejectReconnect env cur ((w.log (.examine s (w.recvPacket s))).log
          (.dispatch s (w.recvPacket s))) s l .messageFormatError) := by
      have hlink : (((w.log (.examine s (w.recvPacket s))).log
          (.dispatch s (w.recvPacket s))).sessions s).link = some l := h.link
      simp only [dispatch, findHandler, hhandler, getHandler, runHandler, recvReconnectReq, hlink,
        hparse, Outcome.caught]
    have hdeliver := deliver_of_passes env (l := cur) hpasses
    rw [hcall, Outcome.bind_ok] at hdeliver
    refine ⟨_, hdeliver, holds_deliver env h.toHolds hdeliver, ?_, ?_⟩
    · simp only [storeSeq, htcp, World.setSession_sessions, Function.update_self, hshows.getSEQ]
    · refine Private.trans ?_ (private_storeSeq env _ s _)
      simp only [rejectReconnect]
      rw [hqueue ((w.log (.examine s (w.recvPacket s))).log (.dispatch s (w.recvPacket s))) rfl]
      refine Private.trans ?_ (private_linkAnswer env s _ l _)
      exact ⟨rfl, fun _ _ => rfl, rfl, rfl, rfl, rfl, rfl, rfl⟩

/-- A delivery adds to the closures that wait for the session. -/
theorem waiting_deliver
    (r : Manager A × History) (cur : LinkId) (s : SessionId) (l : LinkId) :
    (recordStep env r (.act (.deliver cur s))).2.waiting l =
      r.2.waiting l ++ List.replicate
        (((deliver env cur r.1.world s).world.links l).closures.length -
          (r.1.world.links l).closures.length) (rejectedBy env r.1.world s) := by
  simp only [recordStep, History.queue, waiting_record, Manager.step, act]

/-- The request is rejected in the loop of another link; then the link takes another session
over, and the closure that waits does not settle. -/
theorem not_settles_of_bad
    {r : Manager A × History} {b g : Frame}
    (htcp : env.kind = .tcp)
    (hpool : ∀ n, (env.pool n).isSome)
    (h : Receiving r.1.world l s (b.bytes ++ (g.bytes ++ [])))
    (hbad : BadReconnect env r.1.world s b)
    (hvalid : ValidReconnect env r.1.world s g other)
    (hseq : b.seq < g.seq)
    (hne : l ≠ cur)
    (hbusy : (r.1.world.links l).busy = true)
    (hclosures : (r.1.world.links l).closures = [])
    (hwaiting : r.2.waiting l = [])
    (helsewhere : (r.1.world.sessions other).link ≠ some l) :
    ¬ Settles ([.act (.deliver cur s), .act (.advance cur s b.length),
      .act (.deliver l s)].foldl (recordStep env) r) (.act (.closure l)) := by
  have hnext : g.bytes ++ [] ≠ [] := by
    rw [List.append_nil]
    exact List.ne_nil_of_length_pos g.length_pos
  obtain ⟨hrejected, w₁, hdeliver, hholds₁, hseq₁, hprivate₁⟩ :=
    deliver_bad env htcp h hbad hne hbusy
  obtain ⟨data, hdata⟩ := Option.isSome_iff_exists.mp (hpool w₁.created)
  obtain ⟨w₂, hadvance, hholds₂, hadvanced, _⟩ :=
    advance_more env cur (drop_of_front hholds₁) hnext hdata
  have hprivate₂ := private_advance env hadvance
  -- the closure waits, and nothing else is changed outside session s
  have hlink₂ : w₂.links l =
      { r.1.world.links l with closures := [none] } := by
    rw [hprivate₂.links, hprivate₁.links, World.setLink_links, Function.update_self, hclosures,
      List.nil_append]
  have hothers : ∀ t, t ≠ s → w₂.sessions t = r.1.world.sessions t := fun t ht =>
    (hprivate₂.others t ht).trans (hprivate₁.others t ht)
  have hreceiving : Receiving w₂ l s (g.bytes ++ []) := by
    refine ⟨hholds₂, ?_, ?_⟩
    · rw [hlink₂]
      exact h.session
    · rw [hprivate₂.link, hprivate₁.link]
      exact h.link
  have hvalid₂ : ValidReconnect env w₂ s g other := by
    refine hvalid.later env ?_ (hprivate₂.registry.trans hprivate₁.registry)
      (hothers other hvalid.other_ne)
    rw [hadvanced.msgSeq_eq, hseq₁]
    exact hseq
  obtain ⟨hattached, hclosures₃, _, hregistry₃, _⟩ := attached_of_takeOver env
    (demand_reconnect env htcp hreceiving hvalid₂)
    (by rw [hothers other hvalid.other_ne]; exact helsewhere)
  -- the states of the run
  have hrun₁ : (recordStep env r (.act (.deliver cur s))).1.world = w₁ := by
    simp only [recordStep, Manager.step, act, hdeliver, Outcome.world_ok]
  have hwaiting₁ : (recordStep env r (.act (.deliver cur s))).2.waiting l = [some s] := by
    rw [waiting_deliver, hwaiting, hclosures, hrejected, hdeliver, Outcome.world_ok,
      hprivate₁.links, World.setLink_links, Function.update_self, hclosures]
    rfl
  rw [List.foldl_cons, List.foldl_cons, List.foldl_cons, List.foldl_nil]
  generalize recordStep env r (.act (.deliver cur s)) = r₁ at hrun₁ hwaiting₁ ⊢
  have hrun₂ : (recordStep env r₁ (.act (.advance cur s b.length))).1.world = w₂ := by
    simp only [recordStep, Manager.step, act, advanceRead, hrun₁, hadvance]
  have hwaiting₂ : (recordStep env r₁ (.act (.advance cur s b.length))).2.waiting l =
      [some s] := by
    have hqueue : (recordStep env r₁ (.act (.advance cur s b.length))).2 =
        r₁.2.queue r₁.1.world (recordStep env r₁ (.act (.advance cur s b.length))).1.world none :=
      rfl
    rw [hqueue]
    simp only [History.queue, hrun₁, hrun₂, hprivate₂.links, Nat.sub_self, List.replicate_zero,
      List.append_nil, hwaiting₁]
  generalize recordStep env r₁ (.act (.advance cur s b.length)) = r₂ at hrun₂ hwaiting₂ ⊢
  have hrun₃ : (recordStep env r₂ (.act (.deliver l s))).1.world =
      (deliver env l w₂ s).world := by
    simp only [recordStep, Manager.step, act, hrun₂]
  have hwaiting₃ : (recordStep env r₂ (.act (.deliver l s))).2.waiting l = [some s] := by
    rw [waiting_deliver, hwaiting₂, hrun₂, hclosures₃, Nat.sub_self]
    rfl
  obtain ⟨key, _, _, hkey, _⟩ := hvalid₂.request
  intro hsettles
  rcases hsettles s (by rw [hwaiting₃]; rfl) other (by rw [hrun₃, hattached.session]) with
    hsame | hout | hnone
  · exact hvalid.other_ne hsame
  · refine hout ⟨key, ?_⟩
    rw [hrun₃, hregistry₃, hkey]
  · rw [hrun₃, hattached.link] at hnone
    cases hnone

/-- What a safe run says of one of its steps. -/
theorem SafeRun.harmless
    {r : Manager A × History} {front later : List Manager.Step} {a : Manager.Step}
    (h : SafeRun env r (front ++ a :: later)) :
    Harmless env (front.foldl (recordStep env) r) a := by
  induction front generalizing r with
  | nil =>
      exact h.2.1
  | cons b front ih =>
      exact ih h.2.2

end StaleClosures

section Examples

/-- The tokens "token", "tokent", "tokentt" and so on. -/
def countedToken (n _ : Nat) : String :=
  String.ofList (['t', 'o', 'k', 'e', 'n'] ++ List.replicate n 't')

theorem countedToken_injective
    (n k n' k' : Nat)
    (heq : countedToken n k = countedToken n' k') :
    n = n' := by
  have hlist := List.append_cancel_left (String.ofList_injective heq)
  rwa [List.replicate_left_inj] at hlist

/-- The JSON text of a Reconnect_Req for session key 2 and token "tokent". -/
def secondText : List UInt8 :=
  [123, 34, 115, 101, 115, 115, 105, 111, 110, 95, 107, 101, 121, 34, 58, 50,
    44, 34, 115, 101, 115, 115, 105, 111, 110, 95, 116, 111, 107, 101, 110, 34,
    58, 34, 116, 111, 107, 101, 110, 116, 34, 125]

/-- A JSON reader, as far as it concerns texts that begin with one of the two documents. -/
def parseRequests (text : List UInt8) : ReconnectReq :=
  if secondText.isPrefixOf text then .request 2 "tokent" else parseRequest text

/-- A manager whose tokens are distinct. -/
def Env.counted : Env Unit :=
  Env.listen countedToken parseRequests (fun _ => none)

/-- A Reconnect_Req that is not JSON. -/
def badReq : Frame :=
  Frame.write 2 msgIdReconnectReq [125] (by decide)

/-- The Reconnect_Req for the second session. -/
def secondReq : Frame :=
  Frame.write 3 msgIdReconnectReq secondText (by decide)

theorem parse_firstReq
    (trailing : List UInt8) :
    Env.counted.parse (reconnectReq.body ++ trailing) = .request 1 "token" := by
  have hbody : reconnectReq.body = requestText := by
    decide
  have hfront : requestText.isPrefixOf (requestText ++ trailing) = true := by
    rw [List.isPrefixOf_iff_prefix]
    exact List.prefix_append _ _
  have hother : secondText.isPrefixOf (requestText ++ trailing) = false := rfl
  simp only [Env.counted, Env.listen, parseRequests, parseRequest, hbody, hother, hfront, if_true,
    Bool.false_eq_true, if_false]

theorem parse_secondReq
    (trailing : List UInt8) :
    Env.counted.parse (secondReq.body ++ trailing) = .request 2 "tokent" := by
  have hbody : secondReq.body = secondText := by
    decide
  have hfront : secondText.isPrefixOf (secondText ++ trailing) = true := by
    rw [List.isPrefixOf_iff_prefix]
    exact List.prefix_append _ _
  simp only [Env.counted, Env.listen, parseRequests, hbody, hfront, if_true]

theorem parse_badReq
    (trailing : List UInt8) :
    Env.counted.parse (badReq.body ++ trailing) = .malformed := by
  have hbody : badReq.body = [125] := by
    decide
  have hfirst : requestText.isPrefixOf ([125] ++ trailing) = false := rfl
  have hsecond : secondText.isPrefixOf ([125] ++ trailing) = false := rfl
  simp only [Env.counted, Env.listen, parseRequests, parseRequest, hbody, hfirst, hsecond,
    Bool.false_eq_true, if_false]

/-- Client 2 takes the session of client 0 over, while the loop of link 0 goes on with the same
session. -/
def overtakingSteps : List Manager.Step :=
  joinSteps 0 0 ++ (joinSteps 1 1 ++ (askSteps 2 reconnectReq ++
    [.act (.deliver 2 2), .act (.advance 2 2 reconnectReq.length),
      .act (.append 2 (badReq.bytes ++ (secondReq.bytes ++ [])))]))

/-- The loop of link 0 rejects the first of two further requests, that of link 2 takes the
session of client 1 over with the second one. Then the closure on link 2 runs. -/
def detachingSteps : List Manager.Step :=
  [.act (.deliver 0 0), .act (.advance 0 0 badReq.length), .act (.deliver 2 0)] ++
    [.act (.closure 2)]

/-- What the link of client 2 is like behind these steps: it has the session of client 0, and
two requests of it are read. -/
theorem overtaken :
    ∃ w, (Manager.run Env.counted (Manager.listen 3 ()) overtakingSteps).world = w ∧
      Receiving w 2 0 (badReq.bytes ++ (secondReq.bytes ++ [])) ∧
      BadReconnect Env.counted w 0 badReq ∧
      ValidReconnect Env.counted w 0 secondReq 1 ∧
      (w.links 2).busy = true ∧
      (w.links 2).closures = [] := by
  obtain ⟨hlinks₀, hsessions₀, hjoined₀⟩ := joined Env.counted (m := Manager.listen 3 ())
    (l := 0) (s := 0) (p := (Pool.ofCapacity 3).make (by decide))
    (q := (Pool.ofCapacity 3).make (by decide)) rfl rfl (fun _ => rfl) rfl rfl rfl rfl
  rw [overtakingSteps, Manager.run_append, Manager.run_append, Manager.run_append]
  generalize Manager.run Env.counted (Manager.listen 3 ()) (joinSteps 0 0) = m₀ at *
  obtain ⟨hlinks₁, hsessions₁, hjoined₁⟩ := joined Env.counted (m := m₀)
    (l := 1) (s := 1) (p := ((Pool.ofCapacity 3).make (by decide)).make (by decide))
    (q := ((Pool.ofCapacity 3).make (by decide)).make (by decide)) rfl rfl (fun _ => rfl) rfl
    (by rw [hlinks₀]; rfl) (by rw [hsessions₀]; rfl) (by
      rw [hjoined₀.registry, hjoined₀.keys]
      rfl)
  generalize Manager.run Env.counted m₀ (joinSteps 1 1) = m₁ at *
  have hasking := asking Env.counted (m := m₁) (l := 2) (s := 2)
    (p := (((Pool.ofCapacity 3).make (by decide)).make (by decide)).make (by decide))
    (q := (((Pool.ofCapacity 3).make (by decide)).make (by decide)).make (by decide)) rfl
    (by rw [hlinks₁]; rfl) (by rw [hsessions₁]; rfl) reconnectReq
  generalize Manager.run Env.counted m₁ (askSteps 2 reconnectReq) = m₂ at *
  have hzero : m₂.world.sessions 0 = m₀.world.sessions 0 := by
    rw [hasking.others 0 (by decide), hjoined₁.others 0 (by decide)]
  have hone : m₂.world.sessions 1 = m₁.world.sessions 1 := hasking.others 1 (by decide)
  have hregistry : m₂.world.registry =
      Function.update (Function.update (fun _ => none) 1 (some 0)) 2 (some 1) := by
    rw [hasking.registry, hjoined₁.registry, hjoined₀.registry, hjoined₀.keys]
    rfl
  have hvalid : ValidReconnect Env.counted m₂.world 2 reconnectReq 0 := by
    refine ⟨by decide, rfl, ?_, by decide, 1, "token", parse_firstReq, ?_, ?_⟩
    · rw [hasking.msgSeq]
      decide
    · rw [hregistry]
      rfl
    · rw [hzero, hjoined₀.sessionToken]
      rfl
  obtain ⟨w, hacts, hreading, hseq, hclosures, hbusy, hkept, htokens⟩ := receiving_takenOver
    Env.counted rfl hasking.receiving hvalid (by rw [hzero, hjoined₀.link]; decide)
    (show (badReq.bytes ++ (secondReq.bytes ++ [])).length ≤ Buffer.maxSize by decide)
  have hrun : (Manager.run Env.counted m₂ [.act (.deliver 2 2),
      .act (.advance 2 2 reconnectReq.length),
      .act (.append 2 (badReq.bytes ++ (secondReq.bytes ++ [])))]).world = w :=
    (congrArg Manager.world (Manager.run_acts Env.counted m₂ [.deliver 2 2,
      .advance 2 2 reconnectReq.length,
      .append 2 (badReq.bytes ++ (secondReq.bytes ++ []))])).trans hacts
  have hconnected : (w.sessions 0).msgSeq = 1 := by
    rw [hseq, hzero, hjoined₀.msgSeq]
    rfl
  refine ⟨w, hrun, hreading, ⟨by decide, rfl, ?_, parse_badReq⟩,
    ⟨by decide, rfl, ?_, by decide, 2, "tokent", parse_secondReq, ?_, ?_⟩, ?_, ?_⟩
  · rw [hconnected]
    decide
  · rw [hconnected]
    decide
  · rw [hkept, hregistry]
    rfl
  · rw [htokens 1 (by decide) (by decide), hone, hjoined₁.sessionToken, hjoined₀.tokens]
    rfl
  · rw [hbusy, hasking.links, Function.update_self]
    rfl
  · rw [hclosures, hasking.links, Function.update_self]
    rfl

theorem neverAttaches_counted : Env.counted.NeverAttaches :=
  neverAttaches_listen _ _ (fun _ _ hu => nomatch hu)

end Examples

end Tcp
end Gamnet
