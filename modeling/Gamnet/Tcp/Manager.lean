import Gamnet.Library.Pool
import Gamnet.Tcp.Rounds

/-!
# A link manager and its pools

The receive loops of different links run at the same time. An `Act` is what one
thread does between two points at which another one can come in: a read is
divided into the append, the frames, and what is behind each frame, and a session
stays in the hands of the loop that took it from its link. A thread may or may
not hold the strand of the link that it works for, so that each AttachSession
runs at once or is queued.

A `Manager` also has the pools of links and of sessions. An object goes back to
its pool at some time after the last reference to it is gone.
-/

namespace Gamnet
namespace Tcp

section Acts

variable {A : Type} (env : Env A)

/-- What one thread does. -/
inductive Act
  | append (cur : LinkId) (bytes : List UInt8)
  | deliver (cur : LinkId) (s : SessionId)
  | advance (cur : LinkId) (s : SessionId) (totalLength : Nat)
  | closure (l : LinkId)
  | strand (l : LinkId) (busy : Bool)
  | close (cur l : LinkId)
  | send (s : SessionId) (buf : List UInt8)
  | expire (key : Nat)
  | tick (now : Nat)

/-- The start of OnRecvMsg. -/
def appendRead (cur : LinkId) (w : World A) (bytes : List UInt8) : World A :=
  match (w.links cur).session with
  | none => onError env cur w cur
  | some s =>
      let w := touch env w s
      match (w.packets (w.sessions s).recvPacket).append bytes with
      | .error _ => w
      | .ok packet => w.setPacket (w.sessions s).recvPacket packet

/-- The end of a round of the receive loop. -/
def advanceRead (cur : LinkId) (w : World A) (s : SessionId) (totalLength : Nat) :
    World A :=
  match advance env cur w s totalLength with
  | .inl w => w
  | .inr r => r.world

/-- One act. A strand is free when nothing is queued on it. -/
def act (w : World A) : Act → World A
  | .append cur bytes => appendRead env cur w bytes
  | .deliver cur s => (deliver env cur w s).world
  | .advance cur s totalLength => advanceRead env cur w s totalLength
  | .closure l => runClosure w l
  | .strand l busy =>
      if busy = true ∨ (w.links l).closures = [] then
        w.setLink l { w.links l with busy := busy }
      else w
  | .close cur l => onError env cur w l
  | .send s buf => command env 0 w (.send s buf)
  | .expire key => { w with registry := Function.update w.registry key none }
  | .tick now => { w with now := now }

/-- Acts in order. -/
def acts (w : World A) (as : List Act) : World A :=
  as.foldl (act env) w

theorem acts_append
    (w : World A) (as bs : List Act) :
    acts env w (as ++ bs) = acts env (acts env w as) bs := by
  simp only [acts, List.foldl_append]

/-- A round of the receive loop is a sequence of acts. -/
theorem acts_of_recvRound
    (cur : LinkId) (s : SessionId) (w : World A) :
    (∀ w', recvRound env cur s w = .inl w' → ∃ as, acts env w as = w') ∧
      ∀ r, recvRound env cur s w = .inr r → ∃ as, acts env w as = r.world := by
  have hdelivers : ∀ w₁, (deliver env cur w s).world = w₁ →
      acts env w [.deliver cur s] = w₁ := by
    rintro w₁ rfl
    simp only [acts, List.foldl_cons, List.foldl_nil, act]
  rcases recvRound_cases env cur s w with
    hend | hend | ⟨_, ⟨w₁, hdeliver, hround⟩ | hround⟩
  · rw [hend]
    refine ⟨fun w' h => (by cases h), fun r h => ?_⟩
    cases h
    exact ⟨[], rfl⟩
  · rw [hend]
    refine ⟨fun w' h => (by cases h), fun r h => ?_⟩
    cases h
    exact ⟨[.close cur cur], rfl⟩
  · have hacts := hdelivers w₁ (by rw [hdeliver, Outcome.world_ok])
    rw [hround]
    refine ⟨fun w' h => ?_, fun r h => ?_⟩
    · refine ⟨[.deliver cur s] ++ [.advance cur s (w.recvPacket s).getLength], ?_⟩
      rw [acts_append, hacts]
      simp only [acts, List.foldl_cons, List.foldl_nil, act, advanceRead, h]
    · refine ⟨[.deliver cur s] ++ [.advance cur s (w.recvPacket s).getLength], ?_⟩
      rw [acts_append, hacts]
      simp only [acts, List.foldl_cons, List.foldl_nil, act, advanceRead, h]
  · rw [hround]
    refine ⟨fun w' h => (by cases h), fun r h => ?_⟩
    cases h
    exact ⟨[.deliver cur s], hdelivers _ rfl⟩

/-- A receive loop that ends is a sequence of acts. -/
theorem acts_of_run
    (cur : LinkId) (s : SessionId)
    (n : Nat)
    {w : World A} {r : Outcome A}
    (hrun : WhileLoop.run (recvRound env cur s) n w = some r) :
    ∃ as, acts env w as = r.world :=
  WhileLoop.run_rule
    (fun v => ∃ as, acts env w as = v)
    (fun r => ∃ as, acts env w as = r.world)
    (by
      rintro v v' ⟨as, rfl⟩ hround
      obtain ⟨bs, hbs⟩ := (acts_of_recvRound env cur s _).1 v' hround
      exact ⟨as ++ bs, by rw [acts_append, hbs]⟩)
    (by
      rintro v r ⟨as, rfl⟩ hround
      obtain ⟨bs, hbs⟩ := (acts_of_recvRound env cur s _).2 r hround
      exact ⟨as ++ bs, by rw [acts_append, hbs]⟩)
    n ⟨[], rfl⟩ hrun

/-- A read is a sequence of acts. -/
theorem acts_of_onRecvMsg
    (cur : LinkId) (w : World A) (bytes : List UInt8) :
    ∃ as, acts env w as = (onRecvMsg env cur w bytes).world := by
  cases hsession : (w.links cur).session with
  | none =>
      refine ⟨[.append cur bytes], ?_⟩
      simp only [acts, List.foldl_cons, List.foldl_nil, act, appendRead, onRecvMsg, hsession,
        Outcome.world_ok]
  | some s =>
      cases happend : ((touch env w s).packets
          ((touch env w s).sessions s).recvPacket).append bytes with
      | error e =>
          refine ⟨[.append cur bytes], ?_⟩
          simp only [acts, List.foldl_cons, List.foldl_nil, act, appendRead, onRecvMsg, hsession,
            happend, Outcome.world_crash]
      | ok packet =>
          have hstart : acts env w [.append cur bytes] =
              (touch env w s).setPacket ((touch env w s).sessions s).recvPacket packet := by
            simp only [acts, List.foldl_cons, List.foldl_nil, act, appendRead, hsession, happend]
          simp only [onRecvMsg, hsession, happend, recvLoop]
          split
          · rename_i r hrun
            obtain ⟨as, has⟩ := acts_of_run env cur s _ hrun
            refine ⟨[.append cur bytes] ++ as, ?_⟩
            rw [acts_append, hstart, has]
          · exact ⟨[.append cur bytes], hstart⟩

end Acts

/-- A link manager with its pools of links and sessions. -/
structure Manager (A : Type) where
  world : World A
  links : Pool
  sessions : Pool

namespace Manager

variable {A : Type} (env : Env A)

/-- A manager that has not accepted anything. -/
def listen (maxSession : Nat) (app : A) : Manager A where
  world := World.initial app
  links := Pool.ofCapacity maxSession
  sessions := Pool.ofCapacity maxSession

/-- OnAccept, by a thread that holds the strand of link cur. -/
def onAcceptFrom (cur : LinkId) (w : World A) (l : LinkId) (pooled : Option SessionId) :
    Outcome A :=
  match pooled with
  | none => .ok (onError env cur w l)
  | some s =>
      match createPacket env { w with keys := w.keys + 1 } with
      | none => .crash .nullPacket w
      | some (p, w) =>
          let w :=
            w.setSession s
              { sessionKey := w.keys
                sessionToken := ""
                expireTime := 0
                link := none
                msgSeq := 0
                recvPacket := p }
          .ok (attachSession cur (w.log (.accept s)) l (some s))

theorem onAcceptFrom_self
    (w : World A) (l : LinkId) (pooled : Option SessionId) :
    onAcceptFrom env l w l pooled = onAccept env w l pooled := by
  rfl

/-- A connection is accepted with a link of the pool, and a session of the pool
is created for it. -/
def accept (m : Manager A) (cur : LinkId) : Manager A :=
  match m.links.create with
  | none => m
  | some (l, links) =>
      match m.sessions.create with
      | none =>
          { m with
            world := (onAcceptFrom env cur (openLink m.world l) l none).world
            links := links }
      | some (s, sessions) =>
          { world := (onAcceptFrom env cur (openLink m.world l) l (some s)).world
            links := links
            sessions := sessions }

/-- A shared pointer to the link is somewhere: the socket and the handlers on
the strand have one, and so have the closures and the session. -/
def LinkReferenced (m : Manager A) (l : LinkId) : Prop :=
  (m.world.links l).isOpen = true ∨ (m.world.links l).busy = true ∨
    (m.world.links l).closures ≠ [] ∨
    ∃ s ∈ List.range m.sessions.size, (m.world.sessions s).link = some l

instance (m : Manager A) (l : LinkId) : Decidable (m.LinkReferenced l) :=
  inferInstanceAs (Decidable (_ ∨ _ ∨ _ ∨ _))

/-- A shared pointer to the session is somewhere: a link has one, also in the
pool, or a closure, or the map of the sessions. -/
def SessionReferenced (m : Manager A) (s : SessionId) : Prop :=
  (∃ l ∈ List.range m.links.size,
    (m.world.links l).session = some s ∨ some s ∈ (m.world.links l).closures) ∨
    m.world.registry (m.world.sessions s).sessionKey = some s

instance (m : Manager A) (s : SessionId) : Decidable (m.SessionReferenced s) :=
  inferInstanceAs (Decidable (_ ∨ _))

/-- The steps of a manager. -/
inductive Step
  | accept (cur : LinkId)
  | act (a : Act)
  | releaseLink (l : LinkId)
  | releaseSession (s : SessionId)

/-- One step. What is not possible changes nothing. -/
def step (m : Manager A) : Step → Manager A
  | .accept cur => accept env m cur
  | .act a => { m with world := Tcp.act env m.world a }
  | .releaseLink l =>
      if h : m.links.InUse l ∧ ¬ m.LinkReferenced l then
        { m with links := m.links.restitute l h.1 }
      else m
  | .releaseSession s =>
      if h : m.sessions.InUse s ∧ ¬ m.SessionReferenced s then
        { m with sessions := m.sessions.restitute s h.1 }
      else m

/-- A run: the steps in order. What a crash would end goes on here, so that
every run of the code is one of these. -/
def run (m : Manager A) (steps : List Step) : Manager A :=
  steps.foldl (step env) m

theorem run_append
    (m : Manager A) (front later : List Step) :
    run env m (front ++ later) = run env (run env m front) later := by
  simp only [run, List.foldl_append]

/-- In every state of a run, up to its last one. -/
def EveryState (P : Manager A → Prop) : Manager A → List Step → Prop
  | m, [] => P m
  | m, a :: steps => P m ∧ EveryState P (step env m a) steps

/-- In every step of a run, with the state before it. -/
def EveryStep (P : Manager A → Step → Prop) : Manager A → List Step → Prop
  | _, [] => True
  | m, a :: steps => P m a ∧ EveryStep P (step env m a) steps

/-- The rule for the states of a run: what holds at its start, and is kept by
every step that meets the condition. -/
theorem everyState_of_everyStep
    {P Q : Manager A → Prop}
    {C : Manager A → Step → Prop}
    (hkeeps : ∀ m a, P m → C m a → P (step env m a))
    (himplies : ∀ m, P m → Q m)
    {m : Manager A} {steps : List Step}
    (hstart : P m)
    (hsteps : EveryStep env C m steps) :
    EveryState env Q m steps := by
  induction steps generalizing m with
  | nil =>
      exact himplies m hstart
  | cons a steps ih =>
      exact ⟨himplies m hstart, ih (hkeeps m a hstart hsteps.1) hsteps.2⟩

end Manager

end Tcp
end Gamnet
