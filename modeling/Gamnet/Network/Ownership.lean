import Gamnet.Lib.Transition
import Gamnet.Network.LinkManager
import Mathlib.Algebra.Group.Nat.Defs

/-!
# Who owns a link

A link object goes back to its pool when the last shared pointer to it is gone. The map
of the manager has one, so has the session of the link, every asynchronous operation that
is pending and every closure on the strand of the link, and the functor that Connect
stores in the timer of the link itself.

OnError takes the link out of the map and out of its session. It does nothing where the
socket is not open, and what OnClose of the session throws is caught behind both.
Nothing takes the functor out of the timer.

The manager makes the links of both Accept and Connect. A closure of the strand runs at
once where its caller may run it, or is queued; closures of one strand run in order.
-/

namespace Gamnet
namespace Network

abbrev SessionId : Type := Nat

/-- The fields of a link that its owners have to do with: whether the socket is open, a
manager is set, the session, the key, and whether its timer holds a functor. -/
structure Link where
  isOpen : Bool
  manager : Bool
  session : Option SessionId
  linkKey : Nat
  timer : Bool

/-- An asynchronous operation of a link. -/
inductive Operation
  | accept
  | connect
  | read
  | write
  | wait
deriving DecidableEq

/-- A closure on the strand of a link: a call of AttachManager or AttachSession from
outside, the handler of an operation, with its error, the functor of the timer, or the
OnError of the idle timer. -/
inductive Closure
  | attachManager
  | attachSession (s : SessionId)
  | accepted (error : Bool)
  | connected (error : Bool)
  | expired
  | received (error : Bool)
  | written (error : Bool)
  | idle
deriving DecidableEq

/-- What is decided outside of the links while a closure runs: whether the session pool
has a session, OnClose of the session throws, a call on the socket throws, and a message
that was read closes the link. -/
structure Chance where
  sessionLeft : Bool
  onCloseThrows : Bool
  socketThrows : Bool
  closes : Bool

/-- The link pool, the map of the manager, the link pointers of the sessions, and for
each link its pending operations and its strand. -/
structure Ownership where
  pool : Pool
  links : LinkId → Link
  map : List (Nat × LinkId)
  sessions : List (SessionId × LinkId)
  pending : LinkId → List Operation
  strand : LinkId → List Closure
  keys : Nat
  created : Nat

namespace Ownership

/-- Nothing is created yet. -/
def start (maxSession : Nat) : Ownership where
  pool := Pool.ofCapacity maxSession
  links := fun _ =>
    { isOpen := false, manager := false, session := none, linkKey := 0, timer := false }
  map := []
  sessions := []
  pending := fun _ => []
  strand := fun _ => []
  keys := 0
  created := 0

/-- Somebody has a shared pointer to the link. The wait of the timer has none. -/
def Owned (w : Ownership) (l : LinkId) : Prop :=
  l ∈ w.map.map Prod.snd ∨ l ∈ w.sessions.map Prod.snd ∨
    (∃ o ∈ w.pending l, o ≠ .wait) ∨ w.strand l ≠ [] ∨ (w.links l).timer = true

instance (w : Ownership) (l : LinkId) : Decidable (w.Owned l) :=
  inferInstanceAs (Decidable (_ ∨ _ ∨ _ ∨ _ ∨ _))

section Fields

variable (w : Ownership) (l : LinkId)

/-- Overwrite a link. -/
def setLink (x : Link) : Ownership :=
  { w with links := Function.update w.links l x }

/-- An operation is started. -/
def begin (o : Operation) : Ownership :=
  { w with pending := Function.update w.pending l (w.pending l ++ [o]) }

/-- A closure is queued. -/
def post (c : Closure) : Ownership :=
  { w with strand := Function.update w.strand l (w.strand l ++ [c]) }

/-- An operation is over. -/
def finish (o : Operation) : Ownership :=
  { w with pending := Function.update w.pending l ((w.pending l).erase o) }

end Fields

/-- LinkManager::Create. The key is the lower half of a 64-bit counter. -/
def create (w : Ownership) : Option (LinkId × Ownership) :=
  match w.pool.create with
  | none => none
  | some (l, pool) =>
      let x := { w.links l with
        manager := false, session := none, linkKey := (w.keys + 1) % 2 ^ 32 }
      some (l, { w.setLink l x with pool := pool, keys := w.keys + 1 })

/-- LinkManager::Remove of the key of a link, if the link has a manager. -/
def remove (w : Ownership) (l : LinkId) : List (Nat × LinkId) :=
  if (w.links l).manager = true ∧ (w.links l).linkKey ≠ 0 then
    w.map.filter fun e => e.1 ≠ (w.links l).linkKey
  else w.map

/-- LinkManager::Add. -/
def add (map : List (Nat × LinkId)) (key : Nat) (l : LinkId) : List (Nat × LinkId) :=
  if key ∈ map.map Prod.fst then map else map ++ [(key, l)]

/-- The closure of AttachManager with a manager. -/
def attachManager (w : Ownership) (l : LinkId) : Ownership :=
  { w.setLink l { w.links l with manager := true } with
    map := add (w.remove l) (w.links l).linkKey l }

/-- The closure of AttachManager without a manager. -/
def detachManager (w : Ownership) (l : LinkId) : Ownership :=
  { w.setLink l { w.links l with manager := false } with map := w.remove l }

/-- The session of a link, if any, forgets its link. -/
def releaseSession (w : Ownership) (l : LinkId) : List (SessionId × LinkId) :=
  match (w.links l).session with
  | none => w.sessions
  | some s => w.sessions.filter fun e => e.1 ≠ s

/-- The closure of AttachSession with a session. -/
def attachSession (w : Ownership) (l : LinkId) (s : SessionId) : Ownership :=
  { w.setLink l { w.links l with session := some s } with
    sessions := (w.releaseSession l).filter (fun e => e.1 ≠ s) ++ [(s, l)] }

/-- The closure of AttachSession without a session. -/
def detachSession (w : Ownership) (l : LinkId) : Ownership :=
  { w.setLink l { w.links l with session := none } with sessions := w.releaseSession l }

/-- Link::OnError. -/
def onError (w : Ownership) (l : LinkId) (onCloseThrows : Bool) : Ownership :=
  if (w.links l).isOpen = false then w
  else
    let w :=
      if (w.links l).manager = false then w.detachManager l
      else if (w.links l).session = none then w.detachManager l
      else if onCloseThrows then w
      else (w.detachSession l).detachManager l
    w.setLink l { w.links l with isOpen := false }

/-- LinkManager::Callback_Accept behind its test of the error, up to Accept. A closed
socket throws. -/
def callbackAccept (w : Ownership) (l : LinkId) (x : Chance) : Ownership :=
  if x.socketThrows = true ∨ (w.links l).isOpen = false then w
  else
    let w := w.attachManager l
    let w :=
      if x.sessionLeft then
        { w.attachSession l w.created with created := w.created + 1 }
      else w.onError l x.onCloseThrows
    w.begin l .read

/-- The handler of async_connect behind the cancelling of the timer. -/
def connected (w : Ownership) (l : LinkId) (error : Bool) (x : Chance) : Ownership :=
  if error then w.onError l x.onCloseThrows
  else if (w.links l).session = none then w.onError l x.onCloseThrows
  else if x.socketThrows = true ∨ (w.links l).isOpen = false then w
  else w.begin l .read

/-- Run a closure. The functor of the timer uses the session without a check. -/
def runClosure (w : Ownership) (l : LinkId) (x : Chance) : Closure → Option Ownership
  | .attachManager => some (w.attachManager l)
  | .attachSession s => some (w.attachSession l s)
  | .accepted error => some (if error then w else w.callbackAccept l x)
  | .connected error => some ((w.finish l .wait).connected l error x)
  | .expired =>
      if (w.links l).session = none then none else some (w.onError l x.onCloseThrows)
  | .received error =>
      if error then some (w.onError l x.onCloseThrows)
      else
        let w := if x.closes then w.onError l x.onCloseThrows else w
        some (w.begin l .read)
  | .written error => some (if error then w.onError l x.onCloseThrows else w)
  | .idle => some (w.onError l x.onCloseThrows)

/-- LinkManager::Accept. -/
def accept (w : Ownership) : Ownership :=
  match w.create with
  | none => w
  | some (l, w) => w.begin l .accept

/-- A call of Connect: whether its closures are queued, the session pool has a session,
the host is resolved and the socket can be opened, and the time-out in seconds. -/
structure ConnectCall where
  queued : Bool
  sessionLeft : Bool
  resolved : Bool
  opened : Bool
  timeout : Nat

/-- Link::Connect, behind the resolver. -/
def asyncConnect (w : Ownership) (l : LinkId) (x : ConnectCall) : Ownership :=
  let w := w.setLink l { w.links l with isOpen := (w.links l).isOpen || x.opened }
  let w := w.begin l .connect
  if 0 < x.timeout then (w.setLink l { w.links l with timer := true }).begin l .wait else w

/-- Router::LinkManager::Connect. -/
def connect (w : Ownership) (x : ConnectCall) : Ownership :=
  match w.create with
  | none => w
  | some (l, w) =>
      let w := if x.queued then w.post l .attachManager else w.attachManager l
      if x.sessionLeft then
        let s := w.created
        let w := { w with created := s + 1 }
        let w := if x.queued then w.post l (.attachSession s) else w.attachSession l s
        if x.resolved then w.asyncConnect l x else w
      else w

/-- The handler of an operation. -/
def handler (error : Bool) : Operation → Closure
  | .accept => .accepted error
  | .connect => .connected error
  | .read => .received error
  | .write => .written error
  | .wait => .expired

/-- An operation of a link completes: its handler is queued. -/
def complete (w : Ownership) (l : LinkId) (o : Operation) (error : Bool) : Ownership :=
  let w := w.finish l o
  let w :=
    if o = .accept ∧ error = false then w.setLink l { w.links l with isOpen := true } else w
  w.post l (handler error o)

/-- The links in use that nobody owns go back to the pool. -/
def settleLink (w : Ownership) (l : LinkId) : Ownership :=
  if h : w.pool.InUse l ∧ ¬ w.Owned l then { w with pool := w.pool.restitute l h.1 } else w

def settle (w : Ownership) : Ownership :=
  (List.range w.pool.size).foldl settleLink w

/-- The steps: Accept and Connect are called, an operation completes, the closure in
front of a strand runs, a session or the manager sends a buffer, or the idle timer finds a
link. -/
inductive Step
  | accept
  | connect (x : ConnectCall)
  | complete (l : LinkId) (o : Operation) (error : Bool)
  | run (l : LinkId) (x : Chance)
  | send (l : LinkId)
  | idle (l : LinkId)

/-- What a step does before links go back to the pool. -/
def act (w : Ownership) : Step → Option Ownership
  | .accept => some w.accept
  | .connect x => some (w.connect x)
  | .complete l o error =>
      if o ∈ w.pending l ∧ (o = .wait → (w.links l).timer = true) then
        some (w.complete l o error)
      else none
  | .run l x =>
      match w.strand l with
      | [] => none
      | c :: rest =>
          runClosure { w with strand := Function.update w.strand l rest } l x c
  | .send l =>
      if l ∈ w.map.map Prod.snd ∨ l ∈ w.sessions.map Prod.snd then some (w.begin l .write)
      else none
  | .idle l =>
      if l ∈ w.map.map Prod.snd then
        some ({ w with map := w.map.filter fun e => e.2 ≠ l }.post l .idle)
      else none

/-- One step. -/
def step (w : Ownership) (e : Step) : Option Ownership :=
  (w.act e).map settle

/-- The steps in order. -/
abbrev run : Ownership → List Step → Option Ownership :=
  Transition.run step

/-- No connection is open, and nothing is pending but the accept. -/
def Quiescent (w : Ownership) : Prop :=
  ∀ l, (w.links l).isOpen = false ∧ w.strand l = [] ∧ ∀ o ∈ w.pending l, o = .accept

/-- A link that does not wait in async_accept has no owner and is in the pool. -/
def Returned (w : Ownership) : Prop :=
  ∀ l < w.pool.size, .accept ∉ w.pending l → ¬ w.Owned l ∧ l ∈ w.pool.stored

/-- What leaks a link: a Connect with a time-out, one that throws behind AttachManager or
cannot open its socket, an OnClose that throws, and the key 0. -/
def Orderly (w : Ownership) : Step → Prop
  | .accept => w.pool.create.isSome → (w.keys + 1) % 2 ^ 32 ≠ 0
  | .connect x => ∀ l pool, w.pool.create = some (l, pool) →
      (w.keys + 1) % 2 ^ 32 ≠ 0 ∧ x.timeout = 0 ∧ x.sessionLeft = true ∧ x.resolved = true ∧
        (x.opened = true ∨ (w.links l).isOpen = true)
  | .run _ x => x.onCloseThrows = false
  | _ => True

section Links

variable {w w' w'' : Ownership} {l : LinkId}

/-- Nothing changes but what has to do with one link. -/
structure Local (l : LinkId) (w w' : Ownership) : Prop where
  links : ∀ k, k ≠ l → w'.links k = w.links k
  strand : ∀ k, k ≠ l → w'.strand k = w.strand k
  pending : ∀ k, k ≠ l → w'.pending k = w.pending k
  map : ∀ e ∈ w'.map, e.2 ≠ l → e ∈ w.map
  sessions : ∀ e ∈ w'.sessions, e.2 ≠ l → e ∈ w.sessions
  pool : w'.pool = w.pool
  linkKey : (w'.links l).linkKey = (w.links l).linkKey

namespace Local

theorem refl
    (l : LinkId) (w : Ownership) :
    Local l w w :=
  ⟨fun _ _ => rfl, fun _ _ => rfl, fun _ _ => rfl, fun _ h _ => h, fun _ h _ => h, rfl, rfl⟩

theorem trans
    (h₁ : Local l w w')
    (h₂ : Local l w' w'') :
    Local l w w'' where
  links := fun k hk => (h₂.links k hk).trans (h₁.links k hk)
  strand := fun k hk => (h₂.strand k hk).trans (h₁.strand k hk)
  pending := fun k hk => (h₂.pending k hk).trans (h₁.pending k hk)
  map := fun e he hl => h₁.map e (h₂.map e he hl) hl
  sessions := fun e he hl => h₁.sessions e (h₂.sessions e he hl) hl
  pool := h₂.pool.trans h₁.pool
  linkKey := h₂.linkKey.trans h₁.linkKey

end Local

theorem local_setLink
    (w : Ownership) (l : LinkId) (x : Link)
    (hkey : x.linkKey = (w.links l).linkKey) :
    Local l w (w.setLink l x) where
  links := fun k hk => by simp [setLink, hk]
  strand := fun _ _ => rfl
  pending := fun _ _ => rfl
  map := fun _ h _ => h
  sessions := fun _ h _ => h
  pool := rfl
  linkKey := by simp [setLink, hkey]

theorem local_begin
    (w : Ownership) (l : LinkId) (o : Operation) :
    Local l w (w.begin l o) where
  links := fun _ _ => rfl
  strand := fun _ _ => rfl
  pending := fun _ hk => Function.update_of_ne hk _ w.pending
  map := fun _ h _ => h
  sessions := fun _ h _ => h
  pool := rfl
  linkKey := rfl

theorem local_finish
    (w : Ownership) (l : LinkId) (o : Operation) :
    Local l w (w.finish l o) where
  links := fun _ _ => rfl
  strand := fun _ _ => rfl
  pending := fun _ hk => Function.update_of_ne hk _ w.pending
  map := fun _ h _ => h
  sessions := fun _ h _ => h
  pool := rfl
  linkKey := rfl

theorem local_setStrand
    (w : Ownership) (l : LinkId) (q : List Closure) :
    Local l w { w with strand := Function.update w.strand l q } where
  links := fun _ _ => rfl
  strand := fun _ hk => Function.update_of_ne hk q w.strand
  pending := fun _ _ => rfl
  map := fun _ h _ => h
  sessions := fun _ h _ => h
  pool := rfl
  linkKey := rfl

theorem mem_of_mem_remove
    {e : Nat × LinkId}
    (he : e ∈ w.remove l) :
    e ∈ w.map := by
  simp only [remove] at he
  split at he
  · exact List.mem_of_mem_filter he
  · exact he

theorem mem_of_mem_add
    {map : List (Nat × LinkId)} {key : Nat} {e : Nat × LinkId}
    (he : e ∈ add map key l) :
    e ∈ map ∨ e = (key, l) := by
  simp only [add] at he
  split at he
  · exact Or.inl he
  · rcases List.mem_append.mp he with hold | hlast
    · exact Or.inl hold
    · exact Or.inr (List.mem_singleton.mp hlast)

theorem mem_of_mem_releaseSession
    {e : SessionId × LinkId}
    (he : e ∈ w.releaseSession l) :
    e ∈ w.sessions := by
  simp only [releaseSession] at he
  split at he
  · exact he
  · exact List.mem_of_mem_filter he

theorem local_attachManager
    (w : Ownership) (l : LinkId) :
    Local l w (w.attachManager l) where
  links := fun k hk => by simp [attachManager, setLink, hk]
  strand := fun _ _ => rfl
  pending := fun _ _ => rfl
  map := by
    intro e he hl
    rcases mem_of_mem_add he with hold | rfl
    · exact mem_of_mem_remove hold
    · exact absurd rfl hl
  sessions := fun _ h _ => h
  pool := rfl
  linkKey := by simp [attachManager, setLink]

theorem local_detachManager
    (w : Ownership) (l : LinkId) :
    Local l w (w.detachManager l) where
  links := fun k hk => by simp [detachManager, setLink, hk]
  strand := fun _ _ => rfl
  pending := fun _ _ => rfl
  map := fun _ h _ => mem_of_mem_remove h
  sessions := fun _ h _ => h
  pool := rfl
  linkKey := by simp [detachManager, setLink]

theorem local_attachSession
    (w : Ownership) (l : LinkId) (s : SessionId) :
    Local l w (w.attachSession l s) where
  links := fun k hk => by simp [attachSession, setLink, hk]
  strand := fun _ _ => rfl
  pending := fun _ _ => rfl
  map := fun _ h _ => h
  sessions := by
    intro e he hl
    rcases List.mem_append.mp he with hfront | hlast
    · exact mem_of_mem_releaseSession (List.mem_of_mem_filter hfront)
    · cases List.mem_singleton.mp hlast
      exact absurd rfl hl
  pool := rfl
  linkKey := by simp [attachSession, setLink]

theorem local_detachSession
    (w : Ownership) (l : LinkId) :
    Local l w (w.detachSession l) where
  links := fun k hk => by simp [detachSession, setLink, hk]
  strand := fun _ _ => rfl
  pending := fun _ _ => rfl
  map := fun _ h _ => h
  sessions := fun _ h _ => mem_of_mem_releaseSession h
  pool := rfl
  linkKey := by simp [detachSession, setLink]

theorem local_onError
    (w : Ownership) (l : LinkId) (onCloseThrows : Bool) :
    Local l w (w.onError l onCloseThrows) := by
  simp only [onError]
  split
  · exact Local.refl l w
  · refine Local.trans ?_ (local_setLink _ l _ rfl)
    split
    · exact local_detachManager w l
    · split
      · exact local_detachManager w l
      · split
        · exact Local.refl l w
        · exact (local_detachSession w l).trans (local_detachManager _ l)

theorem local_callbackAccept
    (w : Ownership) (l : LinkId) (x : Chance) :
    Local l w (w.callbackAccept l x) := by
  simp only [callbackAccept]
  split
  · exact Local.refl l w
  · refine ((local_attachManager w l).trans ?_).trans (local_begin _ l .read)
    split
    · have hattach := local_attachSession (w.attachManager l) l (w.attachManager l).created
      exact
        ⟨hattach.links, hattach.strand, hattach.pending, hattach.map, hattach.sessions,
          hattach.pool, hattach.linkKey⟩
    · exact local_onError _ l _

theorem local_connected
    (w : Ownership) (l : LinkId) (error : Bool) (x : Chance) :
    Local l w (w.connected l error x) := by
  simp only [connected]
  split
  · exact local_onError w l _
  · split
    · exact local_onError w l _
    · split
      · exact Local.refl l w
      · exact local_begin w l .read

theorem local_runClosure
    {x : Chance} {c : Closure}
    (hrun : runClosure w l x c = some w') :
    Local l w w' := by
  cases c with
  | attachManager =>
      cases hrun
      exact local_attachManager w l
  | attachSession s =>
      cases hrun
      exact local_attachSession w l s
  | accepted error =>
      cases hrun
      cases error with
      | true =>
          exact Local.refl l w
      | false =>
          exact local_callbackAccept w l x
  | connected error =>
      cases hrun
      exact (local_finish w l .wait).trans (local_connected _ l error x)
  | expired =>
      simp only [runClosure] at hrun
      split at hrun
      · cases hrun
      · cases hrun
        exact local_onError w l _
  | received error =>
      cases error with
      | true =>
          cases hrun
          exact local_onError w l _
      | false =>
          cases hrun
          refine Local.trans ?_ (local_begin _ l .read)
          split
          · exact local_onError w l _
          · exact Local.refl l w
  | written error =>
      cases error with
      | true =>
          cases hrun
          exact local_onError w l _
      | false =>
          cases hrun
          exact Local.refl l w
  | idle =>
      cases hrun
      exact local_onError w l _

end Links

section Sane

variable {w w' : Ownership} {l : LinkId}

/-- A link that is in the map or has a session is open, is in the map under its key, and
its timer holds nothing. -/
structure Sane (w : Ownership) (l : LinkId) : Prop where
  map : ∀ key, (key, l) ∈ w.map →
    key = (w.links l).linkKey ∧ (w.links l).manager = true ∧ (w.links l).isOpen = true
  sessions : ∀ s, (s, l) ∈ w.sessions → (w.links l).session = some s
  session : (w.links l).session ≠ none →
    (w.links l).isOpen = true ∧ (w.links l).manager = true
  timer : (w.links l).timer = false

namespace Sane

theorem congr
    (h : Sane w l)
    (hlinks : w'.links l = w.links l)
    (hmap : ∀ key, (key, l) ∈ w'.map → (key, l) ∈ w.map)
    (hsessions : ∀ s, (s, l) ∈ w'.sessions → (s, l) ∈ w.sessions) :
    Sane w' l where
  map := fun key hkey => by
    rw [hlinks]
    exact h.map key (hmap key hkey)
  sessions := fun s hs => by
    rw [hlinks]
    exact h.sessions s (hsessions s hs)
  session := by
    rw [hlinks]
    exact h.session
  timer := by
    rw [hlinks]
    exact h.timer

/-- The other links stay sane. -/
theorem of_local
    {k : LinkId}
    (h : Sane w k)
    (hlocal : Local l w w')
    (hk : k ≠ l) :
    Sane w' k :=
  h.congr (hlocal.links k hk) (fun key he => hlocal.map (key, k) he hk)
    (fun s he => hlocal.sessions (s, k) he hk)

theorem attachManager
    (h : Sane w l)
    (hopen : (w.links l).isOpen = true) :
    Sane (w.attachManager l) l := by
  have hlinks : (w.attachManager l).links l = { w.links l with manager := true } := by
    simp [Ownership.attachManager, setLink]
  refine { map := ?_, sessions := ?_, session := ?_, timer := ?_ }
  · intro key hkey
    rw [hlinks]
    rcases mem_of_mem_add hkey with hold | hnew
    · exact ⟨(h.map key (mem_of_mem_remove hold)).1, rfl, hopen⟩
    · cases hnew
      exact ⟨rfl, rfl, hopen⟩
  · intro s hs
    rw [hlinks]
    exact h.sessions s hs
  · rw [hlinks]
    exact fun _ => ⟨hopen, rfl⟩
  · rw [hlinks]
    exact h.timer

theorem attachSession
    {s : SessionId}
    (h : Sane w l)
    (hopen : (w.links l).isOpen = true)
    (hmanager : (w.links l).manager = true) :
    Sane (w.attachSession l s) l := by
  have hlinks : (w.attachSession l s).links l = { w.links l with session := some s } := by
    simp [Ownership.attachSession, setLink]
  refine { map := ?_, sessions := ?_, session := ?_, timer := ?_ }
  · intro key hkey
    rw [hlinks]
    exact h.map key hkey
  · intro t ht
    rw [hlinks]
    rcases List.mem_append.mp ht with hfront | hlast
    · obtain ⟨hreleased, hne⟩ := List.mem_filter.mp hfront
      -- The session that the link had was released.
      have hold := h.sessions t (mem_of_mem_releaseSession hreleased)
      simp only [releaseSession, hold] at hreleased
      simp at hreleased
    · cases List.mem_singleton.mp hlast
      rfl
  · rw [hlinks]
    exact fun _ => ⟨hopen, hmanager⟩
  · rw [hlinks]
    exact h.timer

/-- A link without manager or session is in neither list. -/
theorem detached
    (h : Sane w l)
    (hsession : (w.links l).session = none)
    (hkey : (w.links l).linkKey ≠ 0) :
    Sane ((w.detachManager l).setLink l { (w.detachManager l).links l with isOpen := false })
      l := by
  have hlinks : ((w.detachManager l).setLink l
      { (w.detachManager l).links l with isOpen := false }).links l =
      { w.links l with manager := false, isOpen := false } := by
    simp [detachManager, setLink]
  refine { map := ?_, sessions := ?_, session := ?_, timer := ?_ }
  · intro key hmem
    have hold := h.map key (mem_of_mem_remove hmem)
    have hremoved : (key, l) ∈ w.remove l := hmem
    rw [remove, if_pos ⟨hold.2.1, hkey⟩, List.mem_filter] at hremoved
    simp [hold.1] at hremoved
  · intro s hs
    have hold := h.sessions s hs
    rw [hsession] at hold
    cases hold
  · rw [hlinks]
    intro hne
    exact absurd hsession hne
  · rw [hlinks]
    exact h.timer

/-- Where OnClose does not throw, OnError leaves no owner behind. -/
theorem onError
    (h : Sane w l)
    (hkey : (w.links l).linkKey ≠ 0) :
    Sane (w.onError l false) l := by
  simp only [Ownership.onError, Bool.false_eq_true, if_false]
  split
  · exact h
  · split
    · rename_i hmanager
      have hsession : (w.links l).session = none := by
        by_contra hne
        rw [(h.session hne).2] at hmanager
        cases hmanager
      exact h.detached hsession hkey
    · split
      · rename_i hsession
        exact h.detached hsession hkey
      · have hlinks : (w.detachSession l).links l = { w.links l with session := none } := by
          simp [detachSession, setLink]
        have hdetached : Sane (w.detachSession l) l := by
          refine { map := ?_, sessions := ?_, session := ?_, timer := ?_ }
          · intro key hmem
            rw [hlinks]
            exact h.map key hmem
          · intro s hs
            have hreleased : (s, l) ∈ w.releaseSession l := hs
            have hold := h.sessions s (mem_of_mem_releaseSession hreleased)
            simp only [releaseSession, hold] at hreleased
            simp at hreleased
          · rw [hlinks]
            intro hne
            exact absurd rfl hne
          · rw [hlinks]
            exact h.timer
        refine hdetached.detached ?_ ?_
        · rw [hlinks]
        · rw [hlinks]
          exact hkey

theorem begin
    (h : Sane w l)
    (o : Operation) :
    Sane (w.begin l o) l :=
  h.congr rfl (fun _ hkey => hkey) (fun _ hs => hs)

theorem callbackAccept
    {x : Chance}
    (h : Sane w l)
    (hkey : (w.links l).linkKey ≠ 0)
    (hthrows : x.onCloseThrows = false) :
    Sane (w.callbackAccept l x) l := by
  simp only [Ownership.callbackAccept]
  split
  · exact h
  · rename_i hsocket
    have hopen : (w.links l).isOpen = true := by
      simpa using (not_or.mp hsocket).2
    have hmanager := h.attachManager hopen
    have hlinks : (w.attachManager l).links l = { w.links l with manager := true } := by
      simp [Ownership.attachManager, setLink]
    refine Sane.begin ?_ .read
    split
    · have hattached := hmanager.attachSession (s := (w.attachManager l).created)
        (by rw [hlinks]; exact hopen) (by rw [hlinks])
      exact hattached.congr rfl (fun _ hkey => hkey) (fun _ hs => hs)
    · rw [hthrows]
      exact hmanager.onError (by rw [hlinks]; exact hkey)

theorem connected
    {x : Chance} {error : Bool}
    (h : Sane w l)
    (hkey : (w.links l).linkKey ≠ 0)
    (hthrows : x.onCloseThrows = false) :
    Sane (w.connected l error x) l := by
  simp only [Ownership.connected, hthrows]
  split
  · exact h.onError hkey
  · split
    · exact h.onError hkey
    · split
      · exact h
      · exact h.begin .read

end Sane

end Sane

section Strands

variable {w w' : Ownership} {l : LinkId}

/-- A call of AttachManager or AttachSession. -/
def attaches : Closure → Bool
  | .attachManager => true
  | .attachSession _ => true
  | _ => false

/-- The calls of Connect are in front of everything else on the strand, and the socket is
open until they have run. -/
def Queued (w : Ownership) (l : LinkId) : Prop :=
  (∀ c ∈ w.strand l, attaches c = false) ∨
    (w.links l).isOpen = true ∧ ∃ s rest, (∀ c ∈ rest, attaches c = false) ∧
      (w.strand l = .attachManager :: .attachSession s :: rest ∨
        (w.links l).manager = true ∧ w.strand l = .attachSession s :: rest)

theorem strand_onError
    (w : Ownership) (l : LinkId) (onCloseThrows : Bool) :
    (w.onError l onCloseThrows).strand = w.strand := by
  simp only [onError]
  split
  · rfl
  · split
    · rfl
    · split
      · rfl
      · split
        · rfl
        · rfl

theorem strand_runClosure
    {x : Chance} {c : Closure}
    (hrun : runClosure w l x c = some w') :
    w'.strand = w.strand := by
  cases c with
  | attachManager =>
      cases hrun
      rfl
  | attachSession s =>
      cases hrun
      rfl
  | accepted error =>
      cases hrun
      split
      · rfl
      · simp only [callbackAccept]
        split
        · rfl
        · split
          · rfl
          · exact strand_onError _ l _
  | connected error =>
      cases hrun
      simp only [connected]
      split
      · exact strand_onError _ l _
      · split
        · exact strand_onError _ l _
        · split
          · rfl
          · rfl
  | expired =>
      simp only [runClosure] at hrun
      split at hrun
      · cases hrun
      · cases hrun
        exact strand_onError w l _
  | received error =>
      cases error with
      | true =>
          cases hrun
          exact strand_onError w l _
      | false =>
          cases hrun
          simp only [begin]
          split
          · exact strand_onError w l _
          · rfl
  | written error =>
      cases hrun
      split
      · exact strand_onError w l _
      · rfl
  | idle =>
      cases hrun
      exact strand_onError w l _

/-- A closure that is no call of Connect keeps a link sane. -/
theorem Sane.runClosure
    {x : Chance} {c : Closure}
    (h : Sane w l)
    (hkey : (w.links l).linkKey ≠ 0)
    (hthrows : x.onCloseThrows = false)
    (hc : attaches c = false)
    (hrun : runClosure w l x c = some w') :
    Sane w' l := by
  cases c with
  | attachManager =>
      cases hc
  | attachSession s =>
      cases hc
  | accepted error =>
      cases hrun
      split
      · exact h
      · exact h.callbackAccept hkey hthrows
  | connected error =>
      cases hrun
      have hfinish : Sane (w.finish l .wait) l :=
        h.congr rfl (fun _ hmem => hmem) (fun _ hs => hs)
      exact hfinish.connected hkey hthrows
  | expired =>
      simp only [Ownership.runClosure, hthrows] at hrun
      split at hrun
      · cases hrun
      · cases hrun
        exact h.onError hkey
  | received error =>
      cases error with
      | true =>
          cases hrun
          rw [hthrows]
          exact h.onError hkey
      | false =>
          cases hrun
          refine Sane.begin ?_ .read
          split
          · rw [hthrows]
            exact h.onError hkey
          · exact h
  | written error =>
      cases hrun
      split
      · rw [hthrows]
        exact h.onError hkey
      · exact h
  | idle =>
      cases hrun
      rw [hthrows]
      exact h.onError hkey

/-- Sane, with the calls of Connect in front. -/
structure Kept (w : Ownership) (l : LinkId) : Prop where
  sane : Sane w l
  queued : Queued w l

theorem Kept.of_local
    {k : LinkId}
    (h : Kept w k)
    (hlocal : Local l w w')
    (hk : k ≠ l) :
    Kept w' k where
  sane := h.sane.of_local hlocal hk
  queued := by
    have hqueued := h.queued
    rw [Queued, ← hlocal.links k hk, ← hlocal.strand k hk] at hqueued
    exact hqueued

/-- The closure in front of a strand runs. -/
theorem Kept.run
    {x : Chance} {c : Closure} {rest : List Closure}
    (h : Kept w l)
    (hkey : (w.links l).linkKey ≠ 0)
    (hthrows : x.onCloseThrows = false)
    (hstrand : w.strand l = c :: rest)
    (hrun : runClosure { w with strand := Function.update w.strand l rest } l x c = some w') :
    Kept w' l := by
  have hrest : w'.strand l = rest := by
    rw [strand_runClosure hrun]
    exact Function.update_self l rest w.strand
  have hpopped : Sane { w with strand := Function.update w.strand l rest } l :=
    h.sane.congr rfl (fun _ hmem => hmem) (fun _ hs => hs)
  rcases h.queued with hnone | ⟨hopen, s, behind, hbehind, hboth | ⟨hmanager, hsession⟩⟩
  · rw [hstrand] at hnone
    refine ⟨hpopped.runClosure hkey hthrows (hnone c List.mem_cons_self) hrun, Or.inl ?_⟩
    rw [hrest]
    exact fun d hd => hnone d (List.mem_cons_of_mem c hd)
  · rw [hstrand] at hboth
    obtain ⟨rfl, rfl⟩ := List.cons_eq_cons.mp hboth
    cases hrun
    refine ⟨hpopped.attachManager hopen, Or.inr ⟨?_, s, behind, hbehind, Or.inr ⟨?_, hrest⟩⟩⟩
    · simpa [Ownership.attachManager, setLink] using hopen
    · simp [Ownership.attachManager, setLink]
  · rw [hstrand] at hsession
    obtain ⟨rfl, rfl⟩ := List.cons_eq_cons.mp hsession
    cases hrun
    refine ⟨hpopped.attachSession hopen hmanager, Or.inl ?_⟩
    rw [hrest]
    exact hbehind

/-- A closure that is no call of Connect is queued. -/
theorem Kept.post
    {c : Closure}
    (h : Kept w l)
    (hc : attaches c = false) :
    Kept (w.post l c) l := by
  have hstrand : (w.post l c).strand l = w.strand l ++ [c] :=
    Function.update_self l _ w.strand
  have hmore : ∀ rest : List Closure, (∀ d ∈ rest, attaches d = false) →
      ∀ d ∈ rest ++ [c], attaches d = false := by
    intro rest hrest d hd
    rcases List.mem_append.mp hd with hold | hlast
    · exact hrest d hold
    · rw [List.mem_singleton.mp hlast]
      exact hc
  refine ⟨h.sane.congr rfl (fun _ hmem => hmem) (fun _ hs => hs), ?_⟩
  rcases h.queued with hnone | ⟨hopen, s, behind, hbehind, hboth | ⟨hmanager, hsession⟩⟩
  · refine Or.inl ?_
    rw [hstrand]
    exact hmore _ hnone
  · refine Or.inr ⟨hopen, s, behind ++ [c], hmore behind hbehind, Or.inl ?_⟩
    rw [hstrand, hboth]
    rfl
  · refine Or.inr ⟨hopen, s, behind ++ [c], hmore behind hbehind, Or.inr ⟨hmanager, ?_⟩⟩
    rw [hstrand, hsession]
    rfl

end Strands

section Runs

variable {w w' : Ownership} {l : LinkId}

/-- What orderly steps keep until links go back to the pool. -/
structure Acted (w : Ownership) : Prop where
  kept : ∀ l, Kept w l
  linkKey : ∀ l, w.pool.InUse l → (w.links l).linkKey ≠ 0
  owned : ∀ l, w.Owned l → w.pool.InUse l

/-- What orderly steps keep: a link that is in use has an owner. -/
structure Inv (w : Ownership) : Prop extends Acted w where
  released : ∀ l, w.pool.InUse l → w.Owned l

theorem owned_of_map
    {key : Nat}
    (h : (key, l) ∈ w.map) :
    w.Owned l :=
  Or.inl (List.mem_map.mpr ⟨(key, l), h, rfl⟩)

theorem owned_of_sessions
    {s : SessionId}
    (h : (s, l) ∈ w.sessions) :
    w.Owned l :=
  Or.inr (Or.inl (List.mem_map.mpr ⟨(s, l), h, rfl⟩))

theorem owned_of_pending
    {o : Operation}
    (h : o ∈ w.pending l)
    (ho : o ≠ .wait) :
    w.Owned l :=
  Or.inr (Or.inr (Or.inl ⟨o, h, ho⟩))

theorem owned_of_strand
    (h : w.strand l ≠ []) :
    w.Owned l :=
  Or.inr (Or.inr (Or.inr (Or.inl h)))

/-- What belongs to one link changes, and the link is in use. -/
theorem Acted.of_local
    (hw : Acted w)
    (hl : w.pool.InUse l)
    (hlocal : Local l w w')
    (hkept : Kept w' l) :
    Acted w' := by
  refine { kept := ?_, linkKey := ?_, owned := ?_ }
  · intro k
    by_cases hk : k = l
    · rw [hk]
      exact hkept
    · exact (hw.kept k).of_local hlocal hk
  · intro k hk
    rw [hlocal.pool] at hk
    by_cases hkl : k = l
    · rw [hkl, hlocal.linkKey]
      exact hw.linkKey l hl
    · rw [hlocal.links k hkl]
      exact hw.linkKey k hk
  · intro k hk
    rw [hlocal.pool]
    by_cases hkl : k = l
    · rw [hkl]
      exact hl
    · refine hw.owned k ?_
      rcases hk with hmap | hsessions | hpending | hstrand | htimer
      · obtain ⟨e, he, rfl⟩ := List.mem_map.mp hmap
        exact owned_of_map (hlocal.map e he hkl)
      · obtain ⟨e, he, rfl⟩ := List.mem_map.mp hsessions
        exact owned_of_sessions (hlocal.sessions e he hkl)
      · rw [hlocal.pending k hkl] at hpending
        exact Or.inr (Or.inr (Or.inl hpending))
      · rw [hlocal.strand k hkl] at hstrand
        exact owned_of_strand hstrand
      · rw [hlocal.links k hkl] at htimer
        exact Or.inr (Or.inr (Or.inr (Or.inr htimer)))

/-- A link that Create hands out. -/
structure Fresh (w : Ownership) (l : LinkId) : Prop where
  inUse : w.pool.InUse l
  map : ∀ key, (key, l) ∉ w.map
  sessions : ∀ s, (s, l) ∉ w.sessions
  strand : w.strand l = []
  session : (w.links l).session = none
  timer : (w.links l).timer = false

theorem pool_create_of_create
    (hcreate : w.create = some (l, w')) :
    ∃ pool, w.pool.create = some (l, pool) := by
  simp only [create] at hcreate
  split at hcreate
  · cases hcreate
  · rename_i _ pool hpool
    cases hcreate
    exact ⟨pool, hpool⟩

theorem Acted.create
    (hw : Acted w)
    (hkey : (w.keys + 1) % 2 ^ 32 ≠ 0)
    (hcreate : w.create = some (l, w')) :
    Acted w' ∧ Fresh w' l ∧ (w'.links l).isOpen = (w.links l).isOpen := by
  simp only [Ownership.create] at hcreate
  split at hcreate
  · cases hcreate
  · rename_i _ pool hpool
    cases hcreate
    obtain ⟨hunused, hinUse⟩ := Pool.inUse_create hpool
    have hunowned : ¬ w.Owned l := fun h => hunused (hw.owned l h)
    have hmap : ∀ key, (key, l) ∉ w.map := fun key h => hunowned (owned_of_map h)
    have hsessions : ∀ s, (s, l) ∉ w.sessions := fun s h => hunowned (owned_of_sessions h)
    have hstrand : w.strand l = [] := by
      by_contra hne
      exact hunowned (owned_of_strand hne)
    have htimer := (hw.kept l).sane.timer
    refine ⟨{ kept := ?_, linkKey := ?_, owned := ?_ }, ?_, ?_⟩
    · intro j
      by_cases hj : j = l
      · obtain rfl : l = j := hj.symm
        refine ⟨?_, Or.inl ?_⟩
        · refine { map := ?_, sessions := ?_, session := ?_, timer := ?_ }
          · exact fun key h => absurd h (hmap key)
          · exact fun s h => absurd h (hsessions s)
          · simp [setLink]
          · simpa [setLink] using htimer
        · intro c hc
          have hc' : c ∈ w.strand l := hc
          rw [hstrand] at hc'
          cases hc'
      · refine ⟨(hw.kept j).sane.congr ?_ (fun _ h => h) (fun _ h => h), ?_⟩
        · simp [setLink, hj]
        · have hqueued := (hw.kept j).queued
          simpa [Queued, setLink, hj] using hqueued
    · intro j hj
      rcases (hinUse j).mp hj with hjl | hold
      · rw [hjl]
        simpa [setLink] using hkey
      · have hjl : j ≠ l := fun h => hunused (h ▸ hold)
        simpa [setLink, hjl] using hw.linkKey j hold
    · intro j hj
      refine (hinUse j).mpr ?_
      by_cases hjl : j = l
      · exact Or.inl hjl
      · refine Or.inr (hw.owned j ?_)
        simpa [Owned, setLink, hjl] using hj
    · exact
        { inUse := (hinUse l).mpr (Or.inl rfl)
          map := hmap
          sessions := hsessions
          strand := hstrand
          session := by simp [setLink]
          timer := by simpa [setLink] using htimer }
    · simp [setLink]

theorem local_post
    (w : Ownership) (l : LinkId) (c : Closure) :
    Local l w (w.post l c) :=
  local_setStrand w l (w.strand l ++ [c])

theorem local_created
    (w : Ownership) (l : LinkId) (n : Nat) :
    Local l w { w with created := n } :=
  ⟨fun _ _ => rfl, fun _ _ => rfl, fun _ _ => rfl, fun _ h _ => h, fun _ h _ => h, rfl, rfl⟩

/-- The calls of a Connect that goes through. -/
theorem kept_connect
    {x : ConnectCall}
    (h : Fresh w l)
    (htimeout : x.timeout = 0)
    (hopened : x.opened = true ∨ (w.links l).isOpen = true) :
    let v := if x.queued then w.post l .attachManager else w.attachManager l
    let v' := { v with created := v.created + 1 }
    let v'' := if x.queued then v'.post l (.attachSession v.created)
      else v'.attachSession l v.created
    Local l w (v''.asyncConnect l x) ∧ Kept (v''.asyncConnect l x) l := by
  have hisOpen : ((w.links l).isOpen || x.opened) = true := by
    rcases hopened with h | h <;> simp [h]
  have hasync : ∀ v : Ownership, v.asyncConnect l x =
      (v.setLink l { v.links l with isOpen := (v.links l).isOpen || x.opened }).begin l
        .connect := by
    intro v
    simp [asyncConnect, htimeout]
  have hlocal : ∀ v : Ownership, Local l v (v.asyncConnect l x) := by
    intro v
    rw [hasync]
    refine Local.trans ?_ (local_begin _ l .connect)
    exact local_setLink v l _ rfl
  cases hqueued : x.queued with
  | true =>
      refine ⟨?_, ?_⟩
      · exact (((local_post w l .attachManager).trans (local_created _ l _)).trans
          (local_post _ l _)).trans (hlocal _)
      · simp only [if_true, hasync]
        refine ⟨?_, Or.inr ⟨?_, w.created, [], ?_, Or.inl ?_⟩⟩
        · refine { map := ?_, sessions := ?_, session := ?_, timer := ?_ }
          · exact fun key hkey => absurd hkey (h.map key)
          · exact fun s hs => absurd hs (h.sessions s)
          · simp [begin, setLink, post, h.session]
          · simpa [begin, setLink, post] using h.timer
        · simpa [begin, setLink, post] using hisOpen
        · intro c hc
          cases hc
        · simp [begin, setLink, post, h.strand]
  | false =>
      refine ⟨?_, ?_⟩
      · exact (((local_attachManager w l).trans (local_created _ l _)).trans
          (local_attachSession _ l _)).trans (hlocal _)
      · simp only [Bool.false_eq_true, if_false, hasync]
        refine ⟨?_, Or.inl ?_⟩
        · refine { map := ?_, sessions := ?_, session := ?_, timer := ?_ }
          · intro key hkey
            rcases mem_of_mem_add hkey with hold | hnew
            · exact absurd (mem_of_mem_remove hold) (h.map key)
            · cases hnew
              simpa [begin, setLink, attachSession, attachManager] using hisOpen
          · intro s hs
            rcases List.mem_append.mp hs with hfront | hlast
            · exact absurd (mem_of_mem_releaseSession (List.mem_of_mem_filter hfront))
                (h.sessions s)
            · cases List.mem_singleton.mp hlast
              simp [begin, setLink, attachSession, attachManager]
          · simpa [begin, setLink, attachSession, attachManager] using hisOpen
          · simpa [begin, setLink, attachSession, attachManager] using h.timer
        · intro c hc
          simp [begin, setLink, attachSession, attachManager, h.strand] at hc

theorem Acted.connect
    {x : ConnectCall}
    (hw : Acted w)
    (horderly : w.Orderly (.connect x)) :
    Acted (w.connect x) := by
  simp only [Ownership.connect]
  split
  · exact hw
  · rename_i l v hcreate
    obtain ⟨pool, hpool⟩ := pool_create_of_create hcreate
    obtain ⟨hkey, htimeout, hsession, hresolved, hopened⟩ := horderly l pool hpool
    obtain ⟨hv, hfresh, hisOpen⟩ := hw.create hkey hcreate
    rw [← hisOpen] at hopened
    obtain ⟨hlocal, hkept⟩ := kept_connect hfresh htimeout hopened
    rw [if_pos hsession, if_pos hresolved]
    exact hv.of_local hfresh.inUse hlocal hkept

/-- An operation or a send only begins. -/
theorem Kept.begin
    (h : Kept w l)
    (o : Operation) :
    Kept (w.begin l o) l :=
  ⟨h.sane.begin o, h.queued⟩

theorem Acted.complete
    {o : Operation} {error : Bool}
    (hw : Acted w)
    (hl : w.pool.InUse l) :
    Acted (w.complete l o error) := by
  have hfinish : Kept (w.finish l o) l :=
    ⟨(hw.kept l).sane.congr rfl (fun _ h => h) (fun _ h => h), (hw.kept l).queued⟩
  have hhandler : attaches (handler error o) = false := by
    cases o <;> rfl
  simp only [Ownership.complete]
  split
  · refine hw.of_local hl (Local.trans ?_ (local_post _ l _)) ?_
    · refine (local_finish w l o).trans ?_
      exact local_setLink _ l _ rfl
    refine Kept.post ⟨?_, ?_⟩ hhandler
    · refine { map := ?_, sessions := ?_, session := ?_, timer := ?_ }
      · intro key hkey
        have hold := hfinish.sane.map key hkey
        simpa [setLink] using ⟨hold.1, hold.2.1⟩
      · intro s hs
        simpa [setLink] using hfinish.sane.sessions s hs
      · simpa [setLink] using fun hne => (hfinish.sane.session hne).2
      · simpa [setLink] using hfinish.sane.timer
    · rcases hfinish.queued with hnone | ⟨_, s, rest, hrest, hstrand⟩
      · exact Or.inl hnone
      · refine Or.inr ⟨by simp [setLink], s, rest, hrest, ?_⟩
        simpa [setLink] using hstrand
  · exact hw.of_local hl ((local_finish w l o).trans (local_post _ l _)) (hfinish.post hhandler)

/-- An orderly step, before links go back to the pool. -/
theorem Acted.act
    {e : Step}
    (hw : Acted w)
    (horderly : w.Orderly e)
    (hact : w.act e = some w') :
    Acted w' := by
  cases e with
  | accept =>
      cases hact
      simp only [Ownership.accept]
      split
      · exact hw
      · rename_i l v hcreate
        obtain ⟨pool, hpool⟩ := pool_create_of_create hcreate
        have hsome : w.pool.create.isSome := by
          rw [hpool]
          rfl
        obtain ⟨hv, hfresh, _⟩ := hw.create (horderly hsome) hcreate
        exact hv.of_local hfresh.inUse (local_begin v l .accept) ((hv.kept l).begin .accept)
  | connect x =>
      cases hact
      exact hw.connect horderly
  | complete l o error =>
      simp only [Ownership.act] at hact
      split at hact
      · rename_i hguard
        cases hact
        refine hw.complete (hw.owned l ?_)
        by_cases ho : o = .wait
        · exact Or.inr (Or.inr (Or.inr (Or.inr (hguard.2 ho))))
        · exact owned_of_pending hguard.1 ho
      · cases hact
  | run l x =>
      simp only [Ownership.act] at hact
      split at hact
      · cases hact
      · rename_i c rest hstrand
        have hl : w.pool.InUse l := hw.owned l (owned_of_strand (by rw [hstrand]; simp))
        exact hw.of_local hl ((local_setStrand w l rest).trans (local_runClosure hact))
          ((hw.kept l).run (hw.linkKey l hl) horderly hstrand hact)
  | send l =>
      simp only [Ownership.act] at hact
      split at hact
      · rename_i hguard
        cases hact
        refine hw.of_local (hw.owned l ?_) (local_begin w l .write) ((hw.kept l).begin .write)
        rcases hguard with hmap | hsessions
        · exact Or.inl hmap
        · exact Or.inr (Or.inl hsessions)
      · cases hact
  | idle l =>
      simp only [Ownership.act] at hact
      split at hact
      · rename_i hmap
        cases hact
        have hremoved : Local l w { w with map := w.map.filter fun e => e.2 ≠ l } :=
          ⟨fun _ _ => rfl, fun _ _ => rfl, fun _ _ => rfl,
            fun _ h _ => List.mem_of_mem_filter h, fun _ h _ => h, rfl, rfl⟩
        have hkept : Kept { w with map := w.map.filter fun e => e.2 ≠ l } l :=
          ⟨(hw.kept l).sane.congr rfl (fun _ h => List.mem_of_mem_filter h) (fun _ h => h),
            (hw.kept l).queued⟩
        exact hw.of_local (hw.owned l (Or.inl hmap)) (hremoved.trans (local_post _ l _))
          (hkept.post rfl)
      · cases hact

/-- The links that go back to the pool are those that nobody owns. -/
theorem settle_links
    (w : Ownership) (ls : List LinkId) :
    ∃ pool, ls.foldl settleLink w = { w with pool := pool } ∧ pool.size = w.pool.size ∧
      ∀ k, pool.InUse k ↔ w.pool.InUse k ∧ (k ∈ ls → w.Owned k) := by
  induction ls generalizing w with
  | nil =>
      exact ⟨w.pool, rfl, rfl, by simp⟩
  | cons l ls ih =>
      obtain ⟨pool, hpool, hsize, hinUse⟩ := ih (w.settleLink l)
      rw [List.foldl_cons, hpool]
      simp only [settleLink] at hsize hinUse ⊢
      split at hsize
      · rename_i hfree
        rw [dif_pos hfree] at hinUse
        refine ⟨pool, by rw [dif_pos hfree], hsize, ?_⟩
        intro k
        rw [hinUse, Pool.inUse_restitute, List.mem_cons]
        constructor
        · rintro ⟨⟨hne, hk⟩, howned⟩
          exact ⟨hk, fun h => howned (h.resolve_left hne)⟩
        · rintro ⟨hk, howned⟩
          refine ⟨⟨?_, hk⟩, fun h => howned (Or.inr h)⟩
          rintro rfl
          exact hfree.2 (howned (Or.inl rfl))
      · rename_i hkeep
        rw [dif_neg hkeep] at hinUse
        refine ⟨pool, by rw [dif_neg hkeep], hsize, ?_⟩
        intro k
        rw [hinUse, List.mem_cons]
        constructor
        · rintro ⟨hk, howned⟩
          refine ⟨hk, ?_⟩
          rintro (rfl | hmem)
          · by_contra hfree
            exact hkeep ⟨hk, hfree⟩
          · exact howned hmem
        · rintro ⟨hk, howned⟩
          exact ⟨hk, fun h => howned (Or.inr h)⟩

/-- Behind every step, what is in use has an owner. -/
theorem Acted.settle
    (hw : Acted w) :
    Inv w.settle := by
  obtain ⟨pool, hpool, hsize, hinUse⟩ := settle_links w (List.range w.pool.size)
  have hused : ∀ l, pool.InUse l ↔ w.pool.InUse l ∧ w.Owned l := by
    intro l
    rw [hinUse, List.mem_range]
    constructor
    · rintro ⟨hl, howned⟩
      exact ⟨hl, howned hl.1⟩
    · rintro ⟨hl, howned⟩
      exact ⟨hl, fun _ => howned⟩
  rw [Ownership.settle, hpool]
  refine { kept := ?_, linkKey := ?_, owned := ?_, released := ?_ }
  · intro l
    exact ⟨(hw.kept l).sane.congr rfl (fun _ h => h) (fun _ h => h), (hw.kept l).queued⟩
  · exact fun l hl => hw.linkKey l ((hused l).mp hl).1
  · exact fun l hl => (hused l).mpr ⟨hw.owned l hl, hl⟩
  · exact fun l hl => ((hused l).mp hl).2

theorem Inv.step
    {e : Step}
    (hw : Inv w)
    (horderly : w.Orderly e)
    (hstep : w.step e = some w') :
    Inv w' := by
  obtain ⟨v, hact, rfl⟩ := Option.map_eq_some_iff.mp hstep
  exact (hw.toActed.act horderly hact).settle

theorem start_inv
    (maxSession : Nat) :
    Inv (start maxSession) := by
  have hunowned : ∀ l, ¬ (start maxSession).Owned l := by
    intro l h
    simp [Owned, start] at h
  have hunused : ∀ l, ¬ (start maxSession).pool.InUse l := fun l h => Nat.not_lt_zero l h.1
  refine { kept := ?_, linkKey := ?_, owned := ?_, released := ?_ }
  · intro l
    refine ⟨{ map := ?_, sessions := ?_, session := ?_, timer := rfl }, Or.inl ?_⟩
    · intro key hkey
      cases hkey
    · intro s hs
      cases hs
    · intro hne
      exact absurd rfl hne
    · intro c hc
      cases hc
  · exact fun l hl => absurd hl (hunused l)
  · exact fun l hl => absurd hl (hunowned l)
  · exact fun l hl => absurd hl (hunused l)

/-- Where nothing is open or pending, the invariant leaves no owner. -/
theorem Inv.returned
    (hw : Inv w)
    (hquiescent : w.Quiescent) :
    w.Returned := by
  intro l hl haccept
  obtain ⟨hclosed, hstrand, hpending⟩ := hquiescent l
  have hunowned : ¬ w.Owned l := by
    rintro (hmap | hsessions | ⟨o, ho, _⟩ | hne | htimer)
    · obtain ⟨e, he, rfl⟩ := List.mem_map.mp hmap
      have hopen := ((hw.kept e.2).sane.map e.1 he).2.2
      rw [hclosed] at hopen
      cases hopen
    · obtain ⟨e, he, rfl⟩ := List.mem_map.mp hsessions
      have hsession := (hw.kept e.2).sane.sessions e.1 he
      have hopen := ((hw.kept e.2).sane.session (by rw [hsession]; simp)).1
      rw [hclosed] at hopen
      cases hopen
    · obtain rfl := hpending o ho
      exact haccept ho
    · exact hne hstrand
    · rw [(hw.kept l).sane.timer] at htimer
      cases htimer
  refine ⟨hunowned, ?_⟩
  by_contra hstored
  exact hunowned (hw.released l ⟨hl, hstored⟩)

/-- In every run of orderly steps, the links come back to the pool. -/
theorem run_returned
    {maxSession : Nat} {steps : List Step} {w : Ownership}
    (horderly : Transition.Along step Orderly (start maxSession) steps)
    (hrun : run (start maxSession) steps = some w) :
    w.Quiescent → w.Returned :=
  (Transition.Along.invariant Inv (fun _ _ _ hw he hstep => hw.step he hstep)
    (start_inv maxSession) horderly hrun).returned

/-- A Connect without a time-out, to a host that refuses it, while an accept waits. -/
def refusedConnect (timeout : Nat) : List Step :=
  [.accept, .connect ⟨false, true, true, true, timeout⟩, .complete 1 .connect true,
    .run 1 ⟨true, false, false, false⟩]

theorem run_returned_refused :
    ∃ w, run (start 2) (refusedConnect 0) = some w ∧ w.pool.stored = [1] ∧
      (w.Quiescent → w.Returned) := by
  have hruns : ∃ w, run (start 2) (refusedConnect 0) = some w ∧ w.pool.stored = [1] :=
    ⟨_, rfl, rfl⟩
  obtain ⟨w, hrun, hstored⟩ := hruns
  refine ⟨w, hrun, hstored, run_returned ?_ hrun⟩
  refine .cons (fun _ => by decide) rfl ?_
  refine .cons (fun l pool _ => ⟨by decide, rfl, rfl, rfl, Or.inl rfl⟩) rfl ?_
  refine .cons trivial rfl ?_
  exact .cons rfl rfl trivial

/-- With a time-out, the link owns itself through its timer. -/
theorem not_returned_timeout :
    ¬ ∀ (maxSession : Nat) (steps : List Step) (w : Ownership),
      run (start maxSession) steps = some w → w.Quiescent → w.Returned := by
  intro h
  have hruns : ∃ w, run (start 2) (refusedConnect 5) = some w ∧ w.pool.size = 2 ∧
      w.pending 1 = [] ∧ w.Owned 1 ∧ w.Quiescent := by
    refine ⟨_, rfl, rfl, rfl, by decide, ?_⟩
    rintro (_ | _ | l)
    · exact ⟨rfl, rfl, by decide⟩
    · exact ⟨rfl, rfl, by decide⟩
    · exact ⟨rfl, rfl, by intro o ho; cases ho⟩
  obtain ⟨w, hrun, hsize, hpending, howned, hquiescent⟩ := hruns
  have hreturned := h 2 (refusedConnect 5) w hrun hquiescent 1
    (by rw [hsize]; decide) (by rw [hpending]; simp)
  exact hreturned.1 howned

end Runs

end Ownership

end Network
end Gamnet
