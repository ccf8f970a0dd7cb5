import Gamnet.Tcp.Invariant
import Gamnet.Tcp.Traffic

/-!
# Deliveries that close a link

The dispatcher closes the link of the session when a message has no handler or
no handler instance, and a handler can close the link as well. `Closes` names
these cases in terms of the state in front of the delivery.

`deliver_adds` says what one delivery adds to the trace: whether there is a
dispatch among the new events, and whether link l is closed by it.
-/

namespace Gamnet
namespace Tcp

section ClosedLinks

variable {A : Type}

variable (env : Env A)

/-- OnError closes its link and no other. -/
theorem isOpen_onError
    (cur : LinkId) (w : World A) (l k : LinkId) :
    ((onError env cur w l).links k).isOpen = true ↔
      (w.links k).isOpen = true ∧ k ≠ l := by
  simp only [onError]
  split
  · rename_i hclosed
    constructor
    · intro hopen
      refine ⟨hopen, ?_⟩
      rintro rfl
      rw [hclosed] at hopen
      cases hopen
    · exact fun h => h.1
  · rw [World.log_links, World.setLink_links]
    by_cases hk : k = l
    · subst hk
      simp
    · rw [Function.update_of_ne hk, isOpen_onClose]
      simp [hk]

/-- A sequence of framework calls closes the links of its OnError calls. -/
theorem isOpen_runCommands
    (cur : LinkId) (w : World A) (cs : List Command) (k : LinkId) :
    ((runCommands env cur w cs).links k).isOpen = true ↔
      (w.links k).isOpen = true ∧ Command.onError k ∉ cs := by
  simp only [runCommands]
  induction cs generalizing w with
  | nil =>
      simp
  | cons c cs ih =>
      rw [List.foldl_cons, ih]
      cases c with
      | onError l =>
          simp only [command, isOpen_onError]
          by_cases hk : k = l
          · simp [hk]
          · simp [hk]
      | attachSession l session =>
          simp [command, isOpen_attachSession]
      | send s buf =>
          have hlinks := (quiet_send env cur w s buf).links
          rw [hlinks]
          simp

theorem isOpen_react
    (cur : LinkId) (w : World A) (r : Reaction A) (k : LinkId) :
    ((react env cur w r).world.links k).isOpen = true ↔
      (w.links k).isOpen = true ∧ Command.onError k ∉ r.commands := by
  have hrun := isOpen_runCommands env cur { w with app := r.app }
    r.commands k
  simp only [react]
  split
  · exact hrun
  · exact hrun

/-- The framework calls that application code makes on behalf of a handler. -/
def Handler.calls (h : Handler A) (w : World A) (s : SessionId)
    (packet : Packet) : List Command :=
  match h with
  | .connectReq =>
      match (w.sessions s).link with
      | none => []
      | some _ => (env.onAccept w.app s).commands
  | .reconnectReq => []
  | .heartBeatReq => []
  | .user u => (u.function w s packet).commands

theorem app_sessionAnswer
    (w : World A) (s : SessionId) (m : Message) :
    (sessionAnswer env w s m).app = w.app := by
  simp only [sessionAnswer, linkAnswer, createPacket]
  cases (w.sessions s).link with
  | none =>
      cases env.pool w.created with
      | none =>
          rfl
      | some data =>
          rfl
  | some l =>
      cases env.pool w.created with
      | none =>
          rfl
      | some data =>
          rfl

theorem app_addSession
    (w : World A) (key : Nat) (s : SessionId) :
    (addSession w key s).app = w.app := by
  simp only [addSession]
  split
  · rfl
  · rfl

theorem isOpen_recvReconnectReq
    (cur : LinkId) (w : World A) (s : SessionId) (packet : Packet)
    (k : LinkId) :
    ((recvReconnectReq env cur w s packet).world.links k).isOpen =
      (w.links k).isOpen := by
  have hreject : ∀ l code,
      ((rejectReconnect env cur w s l code).links k).isOpen =
        (w.links k).isOpen := by
    intro l code
    simp only [rejectReconnect]
    rw [(quiet_linkAnswer env _ l _).links, isOpen_attachSession]
  have haccept : ∀ l other,
      ((acceptReconnect env cur w s l other).links k).isOpen =
        (w.links k).isOpen := by
    intro l other
    simp only [acceptReconnect]
    rw [(quiet_linkAnswer env _ l _).links, isOpen_attachSession,
      (quiet_renewToken env _ other).links, World.setSession_links]
    simp only [leaveLink]
    split
    · rfl
    · rw [isOpen_attachSession]
  simp only [recvReconnectReq]
  split
  · rfl
  · split
    · exact hreject _ _
    · rfl
    · split
      · exact hreject _ _
      · split
        · exact hreject _ _
        · exact haccept _ _

/-- A handler closes the links of the OnError calls made on its behalf. -/
theorem isOpen_runHandler
    (cur : LinkId) (h : Handler A) (w : World A) (s : SessionId)
    (packet : Packet) (k : LinkId) :
    ((runHandler env cur h w s packet).world.links k).isOpen = true ↔
      (w.links k).isOpen = true ∧
        Command.onError k ∉ h.calls env w s packet := by
  cases h with
  | connectReq =>
      cases hlink : (w.sessions s).link with
      | none =>
          simp [runHandler, recvConnectReq, Handler.calls, hlink]
      | some l =>
          simp only [runHandler, recvConnectReq, Handler.calls, hlink]
          rw [isOpen_react, app_sessionAnswer, app_addSession,
            (quiet_sessionAnswer env _ s _).links,
            (quiet_addSession _ _ s).links, (quiet_renewToken env w s).links]
          rfl
  | reconnectReq =>
      simp [runHandler, Handler.calls, isOpen_recvReconnectReq]
  | heartBeatReq =>
      have hlinks := (quiet_recvHeartBeatReq env w s).links
      simp [runHandler, Handler.calls, hlinks]
  | user u =>
      exact isOpen_react env cur w _ k

end ClosedLinks

section CreatedPackets

variable {A : Type}

theorem created_attachSession
    (cur : LinkId) (w : World A) (l : LinkId) (session : Option SessionId) :
    (attachSession cur w l session).created = w.created := by
  have hrelease : (releaseSession w l).created = w.created := by
    simp only [releaseSession]
    split
    · rfl
    · rfl
  simp only [attachSession]
  split
  · cases session with
    | none =>
        exact hrelease
    | some s =>
        exact hrelease
  · rfl

variable (env : Env A)

theorem created_onError
    (cur : LinkId) (w : World A) (l : LinkId) :
    (onError env cur w l).created = w.created := by
  have hclose : (onClose env cur w l).1.created = w.created := by
    simp only [onClose]
    split
    · rfl
    · split
      · rfl
      · rw [created_attachSession]
        simp only [unregister]
        cases env.kind with
        | tcp =>
            rfl
        | router =>
            rfl
  simp only [onError]
  split
  · rfl
  · exact hclose

theorem created_runCommands
    (cur : LinkId) (w : World A) (cs : List Command) :
    (runCommands env cur w cs).created = w.created := by
  simp only [runCommands]
  induction cs generalizing w with
  | nil =>
      rfl
  | cons c cs ih =>
      rw [List.foldl_cons, ih]
      cases c with
      | onError l =>
          exact created_onError env cur w l
      | attachSession l session =>
          exact created_attachSession cur w l session
      | send s buf =>
          simp only [command]
          split
          · rfl
          · rfl

theorem created_react
    (cur : LinkId) (w : World A) (r : Reaction A) :
    (react env cur w r).world.created = w.created := by
  have hrun := created_runCommands env cur { w with app := r.app } r.commands
  simp only [react]
  split
  · exact hrun
  · exact hrun

/-- The packets that the manager creates for a handler which makes framework
calls: the answer of the Connect_Req handler. -/
def Handler.creates (h : Handler A) (w : World A) : Nat :=
  match h with
  | .connectReq => if (env.pool w.created).isSome then 1 else 0
  | _ => 0

theorem created_runHandler
    (cur : LinkId) (h : Handler A) (w : World A) (s : SessionId)
    (packet : Packet) (c : Command)
    (hcall : c ∈ h.calls env w s packet) :
    (runHandler env cur h w s packet).world.created =
      w.created + h.creates env w := by
  cases h with
  | connectReq =>
      cases hlink : (w.sessions s).link with
      | none =>
          simp [Handler.calls, hlink] at hcall
      | some l =>
          have hquiet := (quiet_renewToken env w s).trans
            (quiet_addSession (renewToken env w s)
              ((renewToken env w s).sessions s).sessionKey s)
          have hcreated : (addSession (renewToken env w s)
              ((renewToken env w s).sessions s).sessionKey s).created =
                w.created := by
            simp only [addSession]
            split
            · rfl
            · rfl
          simp only [runHandler, recvConnectReq, hlink, Handler.creates]
          rw [created_react]
          simp only [sessionAnswer, hquiet.link, hlink, linkAnswer,
            createPacket, hcreated]
          cases env.pool w.created with
          | none =>
              exact hcreated
          | some data =>
              rfl
  | reconnectReq =>
      cases hcall
  | heartBeatReq =>
      cases hcall
  | user u =>
      exact created_react env cur w _

end CreatedPackets

section Conditions

variable {A : Type} (env : Env A)

/-- The packet of session s starts with a frame that the loop takes. -/
structure FrontComplete (w : World A) (s : SessionId) : Prop where
  header : headerSize ≤ (w.recvPacket s).size
  low : headerSize ≤ (w.recvPacket s).getLength
  high : (w.recvPacket s).getLength < (w.recvPacket s).capacity
  full : (w.recvPacket s).getLength ≤ (w.recvPacket s).size % 65536

/-- A round that starts in w hands the frame at the front to the dispatcher. -/
def Dispatches (w : World A) (s : SessionId) : Prop :=
  FrontComplete w s ∧ passes env w s (w.recvPacket s) = true

/-- The state in which the dispatcher looks for a handler. -/
def atDispatcher (w : World A) (s : SessionId) : World A :=
  (w.log (.examine s (w.recvPacket s))).log (.dispatch s (w.recvPacket s))

/-- The handler and the instance for the frame at the front. -/
def frontHandler (w : World A) (s : SessionId) : Option (Handler A × A) :=
  findHandler env (atDispatcher w s) s (w.recvPacket s).getID

/-- The dispatcher would use session->link while it is NULL. -/
def NullLink (w : World A) (s : SessionId) : Prop :=
  frontHandler env w s = none ∧ (w.sessions s).link = none

/-- Dispatching the frame at the front closes link l: the frame has no handler
and the session is attached to l, or the handler calls OnError on l. -/
def Closes (l : LinkId) (w : World A) (s : SessionId) : Prop :=
  (w.links l).isOpen = true ∧
    match frontHandler env w s with
    | none => (w.sessions s).link = some l
    | some (h, app) =>
        Command.onError l ∈ h.calls env { atDispatcher w s with app := app }
          s (w.recvPacket s)

/-- Among the bytes c there is a frame that passes the test, and the packets
for the frames in front of it can be created. -/
def Upcoming (msgSeq created : Nat) (c : List UInt8) : Prop :=
  ∃ fs f gs t, c = stream (fs ++ f :: gs) ++ t ∧
    env.kind.accepts msgSeq f = true ∧
    ∀ i, i < fs.length → (env.pool (created + i)).isSome = true

/-- The sequence number of the session behind the frame at the front. -/
def seqBehind (w : World A) (s : SessionId) : Nat :=
  match env.kind with
  | .tcp => (w.recvPacket s).getSEQ
  | .router => (w.sessions s).msgSeq

/-- The number of packets created behind the handler of the front frame. -/
def createdBehind (w : World A) (s : SessionId) : Nat :=
  match frontHandler env w s with
  | none => w.created
  | some (h, _) => w.created + h.creates env w

/-- Behind the frame at the front there is another one that the loop will
dispatch. -/
def Followed (w : World A) (s : SessionId) : Prop :=
  (env.pool (createdBehind env w s)).isSome = true ∧
    Upcoming env (seqBehind env w s) (createdBehind env w s + 1)
      ((w.recvPacket s).unread.drop (w.recvPacket s).getLength)

/-- What a round of the loop must not do: use a NULL link, or dispatch a frame
that closes the link in front of another frame that will be dispatched. -/
def RoundOk (l : LinkId) (w : World A) (s : SessionId) : Prop :=
  Dispatches env w s →
    ¬ NullLink env w s ∧ ¬ (Closes env l w s ∧ Followed env w s)

/-- The event of a dispatch. -/
def Event.IsDispatch : Event → Prop
  | .dispatch _ _ => True
  | _ => False

/-- No dispatch behind a close of link l; the latest event comes first. -/
def Calm (l : LinkId) (events : List Event) : Prop :=
  events.Pairwise fun later earlier =>
    earlier = .close l → ¬ later.IsDispatch

end Conditions

section Events

variable {A : Type} (env : Env A)

theorem calm_append_iff
    (l : LinkId) (later earlier : List Event) :
    Calm l (later ++ earlier) ↔
      Calm l later ∧ Calm l earlier ∧
        ¬ (Event.close l ∈ earlier ∧ ∃ e ∈ later, e.IsDispatch) := by
  simp only [Calm, List.pairwise_append]
  constructor
  · rintro ⟨hlater, hearlier, hcross⟩
    refine ⟨hlater, hearlier, ?_⟩
    rintro ⟨hclose, e, he, hdispatch⟩
    exact hcross e he _ hclose rfl hdispatch
  · rintro ⟨hlater, hearlier, hnone⟩
    refine ⟨hlater, hearlier, ?_⟩
    rintro e he e' he' rfl hdispatch
    exact hnone ⟨he', e, he, hdispatch⟩

/-- Closing links is calm. -/
theorem calm_closed
    (l : LinkId) (closed : List LinkId) {events : List Event}
    (hevents : Calm l events) :
    Calm l (closed.map Event.close ++ events) := by
  have hnone : ¬ ∃ e ∈ closed.map Event.close, e.IsDispatch := by
    rintro ⟨e, he, hdispatch⟩
    obtain ⟨k, _, rfl⟩ := List.mem_map.mp he
    exact hdispatch
  rw [calm_append_iff]
  refine ⟨?_, hevents, fun h => hnone h.2⟩
  rw [Calm, List.pairwise_iff_forall_sublist]
  intro later earlier hsublist _ hdispatch
  exact hnone ⟨later, hsublist.subset (by simp), hdispatch⟩

theorem exists_dispatch_closed_iff
    (closed : List LinkId) (events : List Event) :
    (∃ e ∈ closed.map Event.close ++ events, e.IsDispatch) ↔
      ∃ e ∈ events, e.IsDispatch := by
  constructor
  · rintro ⟨e, he, hdispatch⟩
    rcases List.mem_append.mp he with he | he
    · obtain ⟨k, _, rfl⟩ := List.mem_map.mp he
      cases hdispatch
    · exact ⟨e, he, hdispatch⟩
  · rintro ⟨e, he, hdispatch⟩
    exact ⟨e, List.mem_append_right _ he, hdispatch⟩

/-- The events of a piece of a call: they are calm, and there is a dispatch
among them exactly under the condition P. -/
structure Adds (l : LinkId) (P : Prop) (w w' : World A)
    (events : List Event) : Prop where
  trace : w'.trace = events ++ w.trace
  calm : Calm l events
  dispatch_iff : (∃ e ∈ events, e.IsDispatch) ↔ P

/-- Closing links behind a piece of a call. -/
theorem Adds.closed
    {l : LinkId} {P : Prop} {w w₁ w' : World A} {events : List Event}
    (h : Adds l P w w₁ events)
    {closed : List LinkId}
    (htrace : w'.trace = closed.map Event.close ++ w₁.trace) :
    Adds l P w w' (closed.map Event.close ++ events) := by
  refine ⟨?_, calm_closed l closed h.calm, ?_⟩
  · rw [htrace, h.trace, List.append_assoc]
  · rw [exists_dispatch_closed_iff, h.dispatch_iff]

/-- Examining a frame that does not pass the test. -/
theorem adds_examine
    (l : LinkId) (w : World A) (s : SessionId) (packet : Packet) :
    Adds l False w (w.log (.examine s packet)) [.examine s packet] := by
  refine ⟨rfl, List.pairwise_singleton _ _, ?_⟩
  simp [Event.IsDispatch]

/-- Examining a frame and handing it to the dispatcher. -/
theorem adds_atDispatcher
    (l : LinkId) (w : World A) (s : SessionId) :
    Adds l True w (atDispatcher w s)
      [.dispatch s (w.recvPacket s), .examine s (w.recvPacket s)] := by
  refine ⟨rfl, ?_, ?_⟩
  · simp [Calm]
  · simp [Event.IsDispatch]

/-- What a delivery that returns did: whether it dispatched, and whether that
closed link l. -/
structure Delivered (l : LinkId) (s : SessionId) (w w' : World A)
    (events : List Event) : Prop
    extends Adds l (passes env w s (w.recvPacket s) = true) w w' events where
  close_iff : Event.close l ∈ events ↔
    passes env w s (w.recvPacket s) = true ∧ Closes env l w s

/-- Whether the dispatcher closes link l. -/
theorem isOpen_dispatch
    (cur : LinkId) (w : World A) (s : SessionId) (l : LinkId)
    (hopen : (w.links l).isOpen = true) :
    ((dispatch env cur (w.log (.examine s (w.recvPacket s))) s
        (w.recvPacket s)).world.links l).isOpen = true ↔
      ¬ Closes env l w s := by
  have hopen' : ((atDispatcher w s).links l).isOpen = true := hopen
  have hlink : ((atDispatcher w s).sessions s).link =
      (w.sessions s).link := rfl
  simp only [dispatch, Closes, hopen, true_and]
  cases hfind : frontHandler env w s with
  | none =>
      simp only [frontHandler, atDispatcher] at hfind
      simp only [hfind, noHandler]
      cases hnull : (w.sessions s).link with
      | none =>
          simp only [World.log_sessions, hnull, Outcome.world_crash,
            World.log_links, hopen]
          simp
      | some k =>
          simp only [World.log_sessions, hnull, Outcome.world_ok]
          rw [isOpen_onError]
          simp only [World.log_links, hopen, true_and, Option.some.injEq]
          exact ⟨fun h hk => h hk.symm, fun h hk => h hk.symm⟩
  | some found =>
      simp only [frontHandler, atDispatcher] at hfind
      simp only [hfind, Outcome.caught_world]
      rw [isOpen_runHandler]
      simp only [World.log_links, hopen, true_and]
      rfl

/-- Every delivery, also one that does not return. -/
theorem deliver_adds
    (l : LinkId) (w : World A) (s : SessionId) :
    ∃ events,
      Delivered env l s w (deliver env l w s).world events := by
  by_cases hpasses : passes env w s (w.recvPacket s) = true
  · have hsteady := steady_dispatch env s l
      (w.log (.examine s (w.recvPacket s))) (w.recvPacket s)
    obtain ⟨closed, htrace, hwas, hopen⟩ := hsteady.trace
    have hworld : (deliver env l w s).world.trace =
        closed.map Event.close ++ (atDispatcher w s).trace := by
      rw [deliver_of_passes env hpasses]
      exact Outcome.world_bind (R := fun w₁ => w₁.trace = _)
        (fun w₁ hw₁ => (storeSeq_trace env w₁ s _).trans hw₁) htrace
    have hadds := (adds_atDispatcher l w s).closed hworld
    refine ⟨_, ⟨hadds.trace, hadds.calm, ?_⟩, ?_⟩
    · rw [hadds.dispatch_iff, hpasses]
      simp
    · have hmem : Event.close l ∈ closed.map Event.close ++
          [.dispatch s (w.recvPacket s), .examine s (w.recvPacket s)] ↔
            l ∈ closed := by
        simp
      rw [hmem, hpasses]
      simp only [true_and]
      by_cases hl : (w.links l).isOpen = true
      · have hclosed := hopen l
        rw [isOpen_dispatch env l w s l hl] at hclosed
        have hl' : (((w.log (.examine s (w.recvPacket s))).log
            (.dispatch s (w.recvPacket s))).links l).isOpen = true := hl
        simp only [hl', true_and] at hclosed
        exact (not_iff_not.mp hclosed).symm
      · constructor
        · intro hmem
          exact absurd (hwas l hmem) hl
        · rintro ⟨hl', _⟩
          exact absurd hl' hl
  · have hworld : (deliver env l w s).world =
        w.log (.examine s (w.recvPacket s)) := by
      rw [deliver_of_not_passes env hpasses, Outcome.world_ok]
    have hadds := adds_examine l w s (w.recvPacket s)
    refine ⟨_, ⟨?_, hadds.calm, ?_⟩, ?_⟩
    · rw [hworld]
      exact hadds.trace
    · rw [hadds.dispatch_iff]
      exact ⟨False.elim, fun h => hpasses h⟩
    · constructor
      · intro hmem
        simp at hmem
      · rintro ⟨h, _⟩
        exact absurd h hpasses

end Events

end Tcp
end Gamnet
