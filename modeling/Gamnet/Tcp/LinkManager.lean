import Gamnet.Lib.WhileLoop
import Gamnet.Tcp.Dispatcher

/-!
# The receive loop and the runs of a link manager

`recvRound` is one round of the while loop that Tcp::LinkManager::OnRecvMsg and
Router::LinkManager::OnRecvMsg share: the Tcp manager dispatches a frame only
when its sequence number is above the last one, the Router manager dispatches
every frame and clears an emptied packet once more.

A run is a list of steps. Every OnRecvMsg call, every accept and every closure
that waits on a strand is one atomic step; application code outside handlers and
timers appear as single framework calls.
-/

namespace Gamnet
namespace Tcp

section ReceiveLoop

variable {A : Type} (env : Env A)

/-- The sequence number test in front of the dispatcher. -/
def passes (w : World A) (s : SessionId) (packet : Packet) : Bool :=
  match env.kind with
  | .tcp => decide ((w.sessions s).msgSeq < packet.getSEQ)
  | .router => true

/-- The sequence number that the Tcp loop stores behind the dispatcher. -/
def storeSeq (w : World A) (s : SessionId) (msgSeq : Nat) : World A :=
  match env.kind with
  | .tcp => w.setSession s { w.sessions s with msgSeq := msgSeq }
  | .router => w

/-- Dispatch the frame at the front of the packet unless the sequence number
test discards it. -/
def deliver (cur : LinkId) (w : World A) (s : SessionId) : Outcome A :=
  let packet := w.recvPacket s
  let w := w.log (.examine s packet)
  if passes env w s packet then
    (dispatch env cur w s packet).bind fun w =>
      .ok (storeSeq env w s packet.getSEQ)
  else .ok w

/-- The end of a round: drop the frame, and move what is left of the packet to
a fresh one. -/
def advance (cur : LinkId) (w : World A) (s : SessionId) (totalLength : Nat) :
    World A ⊕ Outcome A :=
  let p := (w.sessions s).recvPacket
  let w := w.setPacket p ((w.packets p).remove totalLength)
  if 0 < (w.packets p).size then
    match createPacket env w with
    | none => .inr (.ok (onError env cur w cur))
    | some (q, w') =>
        match (w'.packets q).append (w.packets p).unread with
        | .error e => .inr (.crash (.bufferOverflow e) w')
        | .ok packet =>
            .inl ((w'.setPacket q packet).setSession s
              { w'.sessions s with recvPacket := q })
  else
    match env.kind with
    | .tcp => .inl w
    | .router => .inl (w.setPacket p (w.packets p).clear)

/-- One round of the receive loop of link cur on behalf of session s. -/
def recvRound (cur : LinkId) (s : SessionId) (w : World A) :
    World A ⊕ Outcome A :=
  let packet := w.recvPacket s
  let totalLength := packet.getLength
  if packet.size < headerSize then .inr (.ok w)
  else if totalLength < headerSize then .inr (.ok (onError env cur w cur))
  else if packet.capacity ≤ totalLength then
    .inr (.ok (onError env cur w cur))
  else if packet.size % 65536 < totalLength then .inr (.ok w)
  else
    match deliver env cur w s with
    | .ok w => advance env cur w s totalLength
    | r => .inr r

/-- The receive loop; a round removes at least a header, so the number of
queued bytes bounds the rounds. -/
def recvLoop (cur : LinkId) (s : SessionId) (w : World A) : Outcome A :=
  match
    WhileLoop.run (recvRound env cur s) ((w.recvPacket s).size + 1) w with
  | some r => r
  | none => .crash .hang w

/-- The Tcp loop stores the time of the read. -/
def touch (w : World A) (s : SessionId) : World A :=
  match env.kind with
  | .tcp => w.setSession s { w.sessions s with expireTime := w.now }
  | .router => w

/-- LinkManager::OnRecvMsg for a read of the given bytes on link cur. -/
def onRecvMsg (cur : LinkId) (w : World A) (bytes : List UInt8) : Outcome A :=
  match (w.links cur).session with
  | none => .ok (onError env cur w cur)
  | some s =>
      let w := touch env w s
      let p := (w.sessions s).recvPacket
      match (w.packets p).append bytes with
      | .error e => .crash (.bufferOverflow e) w
      | .ok packet => recvLoop env cur s (w.setPacket p packet)

/-- One OnRecvMsg call after the other on one link. -/
def onRecvMsgs (cur : LinkId) (w : World A) (reads : List (List UInt8)) :
    Outcome A :=
  reads.foldl (fun r bytes => r.bind fun w => onRecvMsg env cur w bytes) (.ok w)

/-- A frame that does not pass the test is examined and nothing else. -/
theorem deliver_of_not_passes
    {w : World A} {l : LinkId} {s : SessionId}
    (hpasses : ¬ passes env w s (w.recvPacket s) = true) :
    deliver env l w s = .ok (w.log (.examine s (w.recvPacket s))) := by
  have hpasses' : ¬ passes env (w.log (.examine s (w.recvPacket s))) s
      (w.recvPacket s) = true := hpasses
  simp only [deliver]
  rw [if_neg hpasses']

/-- A frame that passes the test is handed to the dispatcher. -/
theorem deliver_of_passes
    {w : World A} {l : LinkId} {s : SessionId}
    (hpasses : passes env w s (w.recvPacket s) = true) :
    deliver env l w s =
      (dispatch env l (w.log (.examine s (w.recvPacket s))) s
        (w.recvPacket s)).bind fun w₁ =>
          .ok (storeSeq env w₁ s (w.recvPacket s).getSEQ) := by
  have hpasses' : passes env (w.log (.examine s (w.recvPacket s))) s
      (w.recvPacket s) = true := hpasses
  simp only [deliver]
  rw [if_pos hpasses']

/-- A frame that passes the test and is delivered was dispatched. -/
theorem deliver_ok_of_passes
    {w w₁ : World A} {l : LinkId} {s : SessionId}
    (hpasses : passes env w s (w.recvPacket s) = true)
    (hdeliver : deliver env l w s = .ok w₁) :
    ∃ w₂, dispatch env l (w.log (.examine s (w.recvPacket s))) s
        (w.recvPacket s) = .ok w₂ ∧
      storeSeq env w₂ s (w.recvPacket s).getSEQ = w₁ := by
  rw [deliver_of_passes env hpasses] at hdeliver
  obtain ⟨w₂, hdispatch, hstore⟩ := Outcome.bind_eq_ok hdeliver
  exact ⟨w₂, hdispatch, Outcome.ok.inj hstore⟩

/-- A read that fits is queued in front of the loop. -/
theorem onRecvMsg_of_append
    {w : World A} {l : LinkId} {s : SessionId} {bytes : List UInt8}
    {packet : Packet}
    (hsession : (w.links l).session = some s)
    (happend : ((touch env w s).recvPacket s).append bytes = .ok packet) :
    onRecvMsg env l w bytes =
      recvLoop env l s
        ((touch env w s).setPacket ((touch env w s).sessions s).recvPacket
          packet) := by
  simp only [World.recvPacket] at happend
  simp only [onRecvMsg, hsession, happend]

theorem onRecvMsgs_cons
    (cur : LinkId) (w : World A) (bytes : List UInt8)
    (reads : List (List UInt8)) :
    onRecvMsgs env cur w (bytes :: reads) =
      (onRecvMsg env cur w bytes).bind fun w =>
        onRecvMsgs env cur w reads := by
  simp only [onRecvMsgs, List.foldl_cons, Outcome.bind_ok]
  exact Outcome.foldl_bind _ _ _

theorem onRecvMsgs_append
    (cur : LinkId) (w : World A) (front later : List (List UInt8)) :
    onRecvMsgs env cur w (front ++ later) =
      (onRecvMsgs env cur w front).bind fun w =>
        onRecvMsgs env cur w later := by
  simp only [onRecvMsgs, List.foldl_append]
  exact Outcome.foldl_bind _ _ _

/-- LinkManager::OnAccept. The argument is the session object that the pool
returns, if any. A session without a packet crashes at its first read; the
model lets it crash here. -/
def onAccept (w : World A) (l : LinkId) (pooled : Option SessionId) :
    Outcome A :=
  match pooled with
  | none => .ok (onError env l w l)
  | some s =>
      match createPacket env { w with keys := w.keys + 1 } with
      | none => .crash .nullPacket w
      | some (p, w) =>
          let w :=
            w.setSession s
              { sessionKey := w.keys
                sessionToken := ""
                expireTime := 0
                link := none
                msgSeq := 0
                recvPacket := p }
          .ok (attachSession l (w.log (.accept s)) l (some s))

end ReceiveLoop

section Runs

variable {A : Type} (env : Env A)

/-- The array of a packet that was never used. -/
def freshStorage : Packet.Storage :=
  ⟨List.replicate Buffer.maxSize 0, Packet.length_zeros⟩

/-- A manager that has not accepted anything yet. Packet 0 stands for the
packet of sessions that were never accepted. -/
def World.initial (app : A) : World A where
  links := fun _ =>
    { isOpen := false, session := none, busy := false, closures := [] }
  sessions := fun _ =>
    { sessionKey := 0, sessionToken := "", expireTime := 0, link := none,
      msgSeq := 0, recvPacket := 0 }
  packets := fun _ => Packet.ofStorage freshStorage
  created := 1
  registry := fun _ => none
  keys := 0
  tokens := 0
  now := 0
  sent := []
  trace := []
  app := app

/-- A Tcp manager of sessions without callbacks, with the given application
handlers, as Listen sets it up. -/
def Env.listen
    (token : Nat → Nat → String) (parse : List UInt8 → ReconnectReq)
    (user : Nat → Option (UserHandler A)) : Env A where
  kind := .tcp
  pool := fun _ => some freshStorage
  token := token
  parse := parse
  handlers := listenHandlers user
  onAccept := fun app _ => { app := app, commands := [], throws := false }
  onClose := fun app _ => (app, false)

/-- A Tcp manager without application handlers. -/
def Env.bare : Env Unit :=
  Env.listen (fun _ _ => "") (fun _ => .malformed) (fun _ => none)

/-- A HeartBeat_Req as the client writes it. -/
def heartBeatReq (msgSeq : Nat) : Frame :=
  Frame.write msgSeq msgIdHeartBeatReq [] emptyBody_fits

/-- The steps of a link manager. -/
inductive Step
  | accept (l : LinkId) (pooled : Option SessionId)
  | recv (l : LinkId) (bytes : List UInt8)
  | closure (l : LinkId)
  | strand (l : LinkId) (busy : Bool)
  | call (cur : LinkId) (c : Command)
  | expire (key : Nat)
  | tick (now : Nat)

/-- Run the closure at the front of a strand. -/
def runClosure (w : World A) (l : LinkId) : World A :=
  match (w.links l).closures with
  | [] => w
  | session :: rest =>
      attachClosure (w.setLink l { w.links l with closures := rest }) l session

/-- The link object that Callback_Accept receives from the pool. -/
def openLink (w : World A) (l : LinkId) : World A :=
  w.setLink l { isOpen := true, session := none, busy := true, closures := [] }

/-- One step. A read that was completed before the socket was closed is still
handed on. -/
def step (w : World A) : Step → Outcome A
  | .accept l pooled => onAccept env (openLink w l) l pooled
  | .recv l bytes => onRecvMsg env l w bytes
  | .closure l => .ok (runClosure w l)
  | .strand l busy =>
      .ok (w.setLink l { w.links l with busy := busy })
  | .call cur c => .ok (command env cur w c)
  | .expire key =>
      .ok { w with registry := Function.update w.registry key none }
  | .tick now => .ok { w with now := now }

/-- A run: the steps in order, up to a crash. -/
def run (w : World A) (steps : List Step) : Outcome A :=
  steps.foldl (fun r a => r.bind fun w => step env w a) (.ok w)

theorem run_cons
    (w : World A) (a : Step) (steps : List Step) :
    run env w (a :: steps) =
      (step env w a).bind fun w => run env w steps := by
  simp only [run, List.foldl_cons, Outcome.bind_ok]
  exact Outcome.foldl_bind _ _ _

end Runs

end Tcp
end Gamnet
