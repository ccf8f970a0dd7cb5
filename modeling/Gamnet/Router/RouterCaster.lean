import Gamnet.Lib.RemoveIf
import Gamnet.Router.World

/-!
# The casters

RouterCaster keeps one table for each cast type. Registering goes through the
tables in the order uni-cast, multi-cast, any-cast and stops at the first one
that refuses; so does unregistering.

The last two tables hold lists of session pointers. Unregistering erases the
single element at the iterator that remove_if returns.
-/

namespace Gamnet
namespace Router

/-- Ways in which the process dies: a null session pointer or link is used, or
an element is erased at the end of a container. -/
inductive Crash
  | nullSession
  | nullLink
  | nullPacket
  | eraseEnd
  | casterIndex
deriving DecidableEq

section Registering

variable (sessions : SessionId → Session)

/-- RouterCasterImpl_Uni::RegisterAddress. -/
def registerUni (t : Tables) (addr : Address) (s : SessionId) :
    Bool × Tables :=
  match t.uni addr.key with
  | some _ => (false, t)
  | none => (true, { t with uni := Function.update t.uni addr.key (some s) })

/-- The loop that looks for a session with the same address. -/
def hasAddress (addr : Address) : List Pointer → Except Crash Bool
  | [] => .ok false
  | none :: _ => .error .nullSession
  | some x :: rest =>
      if addr.same (sessions x).address then .ok true
      else hasAddress addr rest

/-- RouterCasterImpl_Multi::RegisterAddress. -/
def registerMulti (t : Tables) (addr : Address) (s : SessionId) :
    Except Crash (Bool × Tables) :=
  let lst := (t.multi addr.serviceName).getD []
  match hasAddress sessions addr lst with
  | .error e => .error e
  | .ok true =>
      .ok (false,
        { t with
          multi := Function.update t.multi addr.serviceName (some lst) })
  | .ok false =>
      .ok (true,
        { t with
          multi :=
            Function.update t.multi addr.serviceName
              (some (lst ++ [some s])) })

/-- RouterCasterImpl_Any::RegisterAddress. -/
def registerAny (t : Tables) (addr : Address) (s : SessionId) :
    Except Crash (Bool × Tables) :=
  let entry := (t.any addr.serviceName).getD (0, [])
  match hasAddress sessions addr entry.2 with
  | .error e => .error e
  | .ok true =>
      .ok (false,
        { t with
          any := Function.update t.any addr.serviceName (some entry) })
  | .ok false =>
      .ok (true,
        { t with
          any :=
            Function.update t.any addr.serviceName
              (some (entry.2.length % 2 ^ 32, entry.2 ++ [some s])) })

/-- RouterCaster::RegisterAddress. -/
def registerAddress (w : World) (addr : Address) (s : SessionId) :
    Except Crash (Bool × World) :=
  match registerUni w.tables addr s with
  | (false, t) => .ok (false, { w with tables := t })
  | (true, t) =>
      match registerMulti w.sessions t addr s with
      | .error e => .error e
      | .ok (false, t) => .ok (false, { w with tables := t })
      | .ok (true, t) =>
          match registerAny w.sessions t addr s with
          | .error e => .error e
          | .ok (false, t) => .ok (false, { w with tables := t })
          | .ok (true, t) =>
              .ok (true,
                { w with tables := t }.setSession s
                  { w.sessions s with address := addr })

end Registering

section Unregistering

variable (sessions : SessionId → Session)

/-- The predicate that the list casters hand to remove_if. -/
def hasId (id : Nat) : Pointer → Bool
  | none => false
  | some x => decide (id = (sessions x).address.id)

/-- The erase call of the list casters. The predicate is evaluated on every
element and uses its session. -/
def eraseSessions (id : Nat) (lst : List Pointer) :
    Except Crash (List Pointer) :=
  if none ∈ lst then .error .nullSession
  else
    match RemoveIf.eraseAt (RemoveIf.removeIf (hasId sessions id) none lst) with
    | none => .error .eraseEnd
    | some lst => .ok lst

/-- RouterCasterImpl_Uni::UnregisterAddress. -/
def unregisterUni (t : Tables) (addr : Address) : Bool × Tables :=
  match t.uni addr.key with
  | none => (false, t)
  | some _ => (true, { t with uni := Function.update t.uni addr.key none })

/-- RouterCasterImpl_Multi::UnregisterAddress. -/
def unregisterMulti (t : Tables) (addr : Address) :
    Except Crash (Bool × Tables) :=
  match t.multi addr.serviceName with
  | none => .ok (false, t)
  | some lst =>
      match eraseSessions sessions addr.id lst with
      | .error e => .error e
      | .ok lst =>
          .ok (true,
            { t with
              multi := Function.update t.multi addr.serviceName (some lst) })

/-- RouterCasterImpl_Any::UnregisterAddress. -/
def unregisterAny (t : Tables) (addr : Address) :
    Except Crash (Bool × Tables) :=
  match t.any addr.serviceName with
  | none => .ok (false, t)
  | some (first, lst) =>
      match eraseSessions sessions addr.id lst with
      | .error e => .error e
      | .ok lst =>
          .ok (true,
            { t with
              any :=
                Function.update t.any addr.serviceName (some (first, lst)) })

/-- RouterCaster::UnregisterAddress. -/
def unregisterAddress (t : Tables) (addr : Address) :
    Except Crash (Bool × Tables) :=
  match unregisterUni t addr with
  | (false, t) => .ok (false, t)
  | (true, t) =>
      match unregisterMulti sessions t addr with
      | .error e => .error e
      | .ok (false, t) => .ok (false, t)
      | .ok (true, t) => unregisterAny sessions t addr

/-- A property of the tables that each of the casters keeps. -/
theorem unregisterAddress_rule
    {P : Tables → Prop} {t t' : Tables} {addr : Address} {b : Bool}
    (huni : P (unregisterUni t addr).2)
    (hmulti : ∀ t t' b, P t → unregisterMulti sessions t addr = .ok (b, t') → P t')
    (hany : ∀ t t' b, P t → unregisterAny sessions t addr = .ok (b, t') → P t')
    (hunregister : unregisterAddress sessions t addr = .ok (b, t')) :
    P t' := by
  unfold unregisterAddress at hunregister
  split at hunregister <;> rename_i hfirst <;> rw [hfirst] at huni
  · cases hunregister
    exact huni
  · split at hunregister
    · cases hunregister
    · rename_i hsecond
      cases hunregister
      exact hmulti _ _ _ huni hsecond
    · rename_i hsecond
      exact hany _ _ _ (hmulti _ _ _ huni hsecond) hunregister

end Unregistering

section Sending

/-- AnswerWatingSessionManager::AddSession. A number that waits already keeps
its entry. -/
def addSession (w : World) (r : SessionId) (msgSeq : Nat) (client : ClientId)
    (call : Nat) : World :=
  match (w.sessions r).waiting msgSeq with
  | some _ => w
  | none =>
      w.setSession r
        { w.sessions r with
          waiting :=
            Function.update (w.sessions r).waiting msgSeq
              (some { time := w.now, client := client, call := call }) }

/-- Session::Send. Without a link nothing is sent. -/
def sendTo (w : World) (s : SessionId) (m : Message) : World :=
  if (w.sessions s).attached then { w with sent := (s, m) :: w.sent } else w

/-- What a caster does with one router session of a SendMsg call. -/
def castTo (w : World) (p : Pending) (r : SessionId) : World :=
  let w :=
    match p.client with
    | none => w
    | some client =>
        (addSession w r p.msgSeq client p.call).log (.address p.call r)
  sendTo w r (.sendMsgNtf p.msgSeq p.buf)

/-- The copies that a caster sends, one for each router session. -/
def World.addCopies (w : World) (p : Pending) (lst : List Pointer) : World :=
  { w with casting := w.casting ++ lst.map fun s => (p, s) }

/-- The next copy. In the loop of RouterCasterImpl_Multi::SendMsg the pointer may be null. -/
def castNext (w : World) : Except Crash World :=
  match w.casting with
  | [] => .ok w
  | (_, none) :: _ => .error .nullSession
  | (p, some r) :: rest => .ok (castTo { w with casting := rest } p r)

/-- RouterCasterImpl_Uni::SendMsg. -/
def sendUni (w : World) (p : Pending) : Except Crash World :=
  match w.tables.uni p.addr.key with
  | none => .ok w
  | some r => .ok (w.addCopies p [some r])

/-- RouterCasterImpl_Multi::SendMsg. -/
def sendMulti (w : World) (p : Pending) : Except Crash World :=
  match w.tables.multi p.addr.serviceName with
  | none => .ok w
  | some lst => .ok (w.addCopies p lst)

/-- A 32-bit int, converted to size_t. -/
def sizeOfInt (n : Nat) : Nat :=
  if n < 2 ^ 31 then n else n + 2 ^ 64 - 2 ^ 32

/-- RouterCasterImpl_Any::SendMsg. -/
def sendAny (w : World) (p : Pending) : Except Crash World :=
  match w.tables.any p.addr.serviceName with
  | none => .ok w
  | some (first, lst) =>
      match lst[sizeOfInt first % lst.length]? with
      | none => .ok w
      | some none => .error .nullSession
      | some (some r) =>
          let entry := (some ((first + 1) % 2 ^ 32, lst))
          let t :=
            { w.tables with
              any := Function.update w.tables.any p.addr.serviceName entry }
          .ok ({ w with tables := t }.addCopies p [some r])

/-- The caster that SendMsg selects. A cast type above the known ones is
refused; one below them is no index of the array. -/
def cast (w : World) (p : Pending) : Except Crash World :=
  if Address.maxCast ≤ p.addr.castType then .ok w
  else if p.addr.castType = Address.uniCast then sendUni w p
  else if p.addr.castType = Address.multiCast then sendMulti w p
  else if p.addr.castType = Address.anyCast then sendAny w p
  else .error .casterIndex

/-- The start of RouterCaster::SendMsg: the number of the message. It is taken
from the counter for a call on behalf of a client session only. -/
def startSendMsg (w : World) (client : Option ClientId) (addr : Address)
    (buf : List UInt8) : World :=
  match client with
  | none =>
      { w with
        pending := w.pending ++
          [{ client := none, msgSeq := addr.msgSeq % 2 ^ 32,
             call := 0, addr := addr, buf := buf }] }
  | some c =>
      { w with
        msgSeq := (w.msgSeq + 1) % 2 ^ 32
        calls := w.calls ++ [{ client := c, msgSeq := w.msgSeq }]
        pending := w.pending ++
          [{ client := some c, msgSeq := w.msgSeq,
             call := w.calls.length, addr := addr, buf := buf }] }

end Sending

section CastRules

variable {w w' : World} {p : Pending} {P : World → Prop}

/-- What a caster does when a call enters it: any-cast moves to the next session, and the
copies are listed. -/
theorem cast_rule
    (hcopies : ∀ w lst, P w → P (w.addCopies p lst))
    (hturn : ∀ w entry, P w → P { w with
      tables := { w.tables with
        any := Function.update w.tables.any p.addr.serviceName (some entry) } })
    (h : P w)
    (hcast : cast w p = .ok w') :
    P w' := by
  simp only [cast] at hcast
  split at hcast
  · cases hcast
    exact h
  · split at hcast
    · simp only [sendUni] at hcast
      split at hcast
      · cases hcast
        exact h
      · cases hcast
        exact hcopies w _ h
    · split at hcast
      · simp only [sendMulti] at hcast
        split at hcast
        · cases hcast
          exact h
        · cases hcast
          exact hcopies w _ h
      · split at hcast
        · simp only [sendAny] at hcast
          split at hcast
          · cases hcast
            exact h
          · split at hcast
            · cases hcast
              exact h
            · cases hcast
            · cases hcast
              exact hcopies _ _ (hturn w _ h)
        · cases hcast

/-- The next copy, if there is one, leaves the list and is sent. -/
theorem castNext_cases
    (hnext : castNext w = .ok w') :
    w' = w ∨
      ∃ p r rest, w.casting = (p, some r) :: rest ∧
        w' = castTo { w with casting := rest } p r := by
  unfold castNext at hnext
  split at hnext
  · cases hnext
    exact .inl rfl
  · cases hnext
  · rename_i p r rest hcasting
    cases hnext
    exact .inr ⟨p, r, rest, hcasting, rfl⟩

end CastRules

end Router
end Gamnet
