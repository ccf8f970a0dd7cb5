import Gamnet.Tcp.Packet
import Mathlib.Logic.Function.Basic

/-!
# The state of a router

Router sessions are objects that the route tables refer to by shared pointer; a
pointer that was moved from is null. The uni-cast table is a std::map ordered by
operator<, which ignores the sequence number of an address; `Address.key` is what
that order compares.

Besides the state of the code, `World` records the calls of SendMsg that took a
sequence number, and what can be observed of a run: the messages that sessions
send, the sessions that such a call was addressed to, and the client sessions
found for replies.
-/

namespace Gamnet
namespace Router

abbrev SessionId : Type := Nat
abbrev ClientId : Type := Nat

/-- An address as it stands in the messages. The cast type is read from the wire
without a check. -/
structure Address where
  serviceName : List UInt8
  castType : Int
  id : Nat
  msgSeq : Nat
deriving DecidableEq

namespace Address

/-- The address of the default constructor. -/
def default : Address :=
  { serviceName := [], castType := 0, id := 0, msgSeq := 0 }

/-- ROUTER_CAST_TYPE. -/
def uniCast : Int := 0

def multiCast : Int := 1

def anyCast : Int := 2

def maxCast : Int := 3

/-- operator<. -/
def lt (lhs rhs : Address) : Bool :=
  if lhs.id < rhs.id then true
  else if lhs.id = rhs.id then
    if lhs.serviceName < rhs.serviceName then true
    else if lhs.serviceName = rhs.serviceName then
      if lhs.castType < rhs.castType then true
      else false
    else false
  else false

/-- operator==. -/
def same (lhs rhs : Address) : Bool :=
  if lhs.serviceName ≠ rhs.serviceName ∨ lhs.castType ≠ rhs.castType ∨
      lhs.id ≠ rhs.id then
    false
  else true

/-- What the comparisons look at. -/
structure Key where
  id : Nat
  serviceName : List UInt8
  castType : Int
deriving DecidableEq

def key (a : Address) : Key :=
  { id := a.id, serviceName := a.serviceName, castType := a.castType }

theorem same_iff
    (a b : Address) :
    a.same b = true ↔ a.key = b.key := by
  simp only [same, key, Key.mk.injEq]
  split
  · rename_i hne
    constructor
    · intro h
      cases h
    · rintro ⟨hid, hname, htype⟩
      exact absurd hne (by simp [hid, hname, htype])
  · rename_i heq
    simp only [not_or, ne_eq, not_not] at heq
    simp [heq]

/-- Two addresses are one key of a std::map when neither is below the other. -/
theorem equivalent_iff
    (a b : Address) :
    (a.lt b = false ∧ b.lt a = false) ↔ a.key = b.key := by
  simp only [lt, key, Key.mk.injEq]
  rcases Nat.lt_trichotomy a.id b.id with hid | hid | hid
  · simp [hid, Nat.ne_of_lt hid]
  · by_cases hname : a.serviceName = b.serviceName
    · have hirrefl := List.lt_irrefl b.serviceName
      rcases Int.lt_trichotomy a.castType b.castType with htype | htype | htype
      · simp [hid, hname, htype, Int.ne_of_lt htype]
      · simp [hid, hname, htype]
      · simp [hid, hname, htype, Int.ne_of_gt htype]
    · have hother : b.serviceName ≠ a.serviceName := Ne.symm hname
      by_cases hlt : a.serviceName < b.serviceName
      · simp [hid, hname, hlt]
      · by_cases hgt : b.serviceName < a.serviceName
        · simp [hid, hname, hgt]
        · exact absurd (List.le_antisymm (List.not_lt.mp hgt)
            (List.not_lt.mp hlt)) hname
  · simp [hid, Nat.ne_of_gt hid]

end Address

/-- An entry of the waiting table of a router session: the time, the client
session, and which call of SendMsg made the entry. The code has no need of the
latter. -/
structure Waiting where
  time : Nat
  client : ClientId
  call : Nat
deriving DecidableEq

/-- The fields of a router session. It is attached while its link is open. -/
structure Session where
  address : Address
  attached : Bool
  waiting : Nat → Option Waiting

/-- A std::shared_ptr to a router session. -/
abbrev Pointer : Type := Option SessionId

/-- The tables of the three casters. The any-cast table also holds the index of
the session that is next, a 32-bit int. -/
structure Tables where
  uni : Address.Key → Option SessionId
  multi : List UInt8 → Option (List Pointer)
  any : List UInt8 → Option (Nat × List Pointer)

/-- What a router session sends. -/
inductive Message
  | setAddressReq (localAddress : Address)
  | setAddressAns (errorCode : Nat) (remoteAddress : Address)
  | setAddressNtf
  | sendMsgNtf (msgSeq : Nat) (buffer : List UInt8)
deriving DecidableEq

/-- A SendMsg call that took a sequence number for a client session. -/
structure Call where
  client : ClientId
  msgSeq : Nat
deriving DecidableEq

/-- A SendMsg call that has not entered its caster yet; `call` is its place
among the calls that took a number. -/
structure Pending where
  client : Option ClientId
  msgSeq : Nat
  call : Nat
  addr : Address
  buf : List UInt8
deriving DecidableEq

/-- What can be observed of a run. -/
inductive Event
  | address (call : Nat) (r : SessionId)
  | obtain (r : SessionId) (msgSeq : Nat) (client : ClientId) (call : Nat)
deriving DecidableEq

/-- The state of a router. A SendMsg call that is in its caster sends one copy after the
other; `casting` lists those that are still to come, each with its call. The trace lists the
latest event first. -/
structure World where
  localAddress : Address
  sessions : SessionId → Session
  tables : Tables
  msgSeq : Nat
  now : Nat
  created : Nat
  calls : List Call
  pending : List Pending
  casting : List (Pending × Pointer)
  finding : List (SessionId × Nat)
  sent : List (SessionId × Message)
  trace : List Event

namespace World

/-- Overwrite a session. -/
def setSession (w : World) (s : SessionId) (x : Session) : World :=
  { w with sessions := Function.update w.sessions s x }

/-- Append an event to the trace. -/
def log (w : World) (e : Event) : World :=
  { w with trace := e :: w.trace }

@[simp] theorem setSession_sessions
    (w : World) (s : SessionId) (x : Session) :
    (w.setSession s x).sessions = Function.update w.sessions s x := by
  rfl

@[simp] theorem setSession_tables
    (w : World) (s : SessionId) (x : Session) :
    (w.setSession s x).tables = w.tables := by
  rfl

@[simp] theorem setSession_msgSeq
    (w : World) (s : SessionId) (x : Session) :
    (w.setSession s x).msgSeq = w.msgSeq := by
  rfl

@[simp] theorem setSession_calls
    (w : World) (s : SessionId) (x : Session) :
    (w.setSession s x).calls = w.calls := by
  rfl

@[simp] theorem setSession_pending
    (w : World) (s : SessionId) (x : Session) :
    (w.setSession s x).pending = w.pending := by
  rfl

@[simp] theorem setSession_trace
    (w : World) (s : SessionId) (x : Session) :
    (w.setSession s x).trace = w.trace := by
  rfl

end World

end Router
end Gamnet
