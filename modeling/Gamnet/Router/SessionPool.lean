import Gamnet.Router.Answer
import Gamnet.Router.RouterHandler
import Gamnet.Tcp.Manager

/-!
# Session objects that are used again

A session object that comes from the pool is put in order by Session::Init, by the
OnAccept of the link manager that creates it, and for a router session by the OnAccept of
the session. What none of them sets is left over from the last owner: the container of the
handlers, and of a router session the address, the waiting table and the callback of
Connect. The object behaves like a new one, whatever happens to it and around it, exactly
if nothing is left over (`reused_iff`).

The process is that of both link managers: reads, closures and closes are acts of the Tcp
side, and what RouterHandler does with a message is a step of the router. OnCreate does
nothing.
-/

namespace Gamnet
namespace Router

/-- A callback of the application, or the empty one. -/
abbrev Callback : Type := Option Nat

/-- What can be observed besides the traces: the handler that was found in a container
for a message id, and calls of the callbacks. -/
inductive Observed
  | handler (s : SessionId) (msgId : UInt32) (handler : Option Nat)
  | onRouterAccept (address : Address)
  | onRouterConnect (callback : Nat) (address : Address)
  | onRouterClose (callback : Nat) (address : Address)

/-- The links and sessions with the containers of the sessions, the router, and the
callbacks of the router sessions. -/
structure Process where
  tcp : Tcp.World (SessionId → HandlerContainer)
  router : World
  onRouterConnect : SessionId → Callback
  onRouterClose : SessionId → Callback
  observed : List Observed
  crashed : Option Crash

/-- The code around the process: that of the link manager, that of the router, and the
callback that was given to Listen. -/
structure Setting where
  tcp : Tcp.Env (SessionId → HandlerContainer)
  router : Env
  onRouterClose : Callback

/-- The fields of a session object. Those behind the container are fields of a router
session only. -/
structure Object where
  tcp : Tcp.Session
  handlers : HandlerContainer
  router : Session
  onRouterConnect : Callback
  onRouterClose : Callback

namespace Object

/-- The constructors. -/
def new : Object where
  tcp :=
    { sessionKey := 0, sessionToken := "", expireTime := 0, link := none, msgSeq := 0,
      recvPacket := 0 }
  handlers := fun _ => none
  router := { address := Address.default, attached := false, waiting := fun _ => none }
  onRouterConnect := none
  onRouterClose := none

/-- Nothing is left over: no handler is bound, and a router session has no address, no
client waits in it, and its callback of Connect is the empty one. -/
structure AsNew (kind : Tcp.Kind) (x : Object) : Prop where
  handlers : x.handlers = fun _ => none
  address : kind = .router → x.router.address = Address.default
  waiting : kind = .router → x.router.waiting = fun _ => none
  onRouterConnect : kind = .router → x.onRouterConnect = none

end Object

namespace Process

/-- A process without sessions. -/
def initial (localAddress : Address) : Process where
  tcp := Tcp.World.initial fun _ _ => none
  router := World.initial localAddress
  onRouterConnect := fun _ => none
  onRouterClose := fun _ => none
  observed := []
  crashed := none

/-- The fields of a session. -/
def object (p : Process) (s : SessionId) : Object where
  tcp := p.tcp.sessions s
  handlers := p.tcp.app s
  router := p.router.sessions s
  onRouterConnect := p.onRouterConnect s
  onRouterClose := p.onRouterClose s

/-- The process with an object in the place of a session. -/
def put (kind : Tcp.Kind) (p : Process) (s : SessionId) (x : Object) : Process :=
  let tcp := { p.tcp.setSession s x.tcp with app := Function.update p.tcp.app s x.handlers }
  match kind with
  | .tcp => { p with tcp := tcp }
  | .router =>
      { p with
        tcp := tcp
        router := p.router.setSession s x.router
        onRouterConnect := Function.update p.onRouterConnect s x.onRouterConnect
        onRouterClose := Function.update p.onRouterClose s x.onRouterClose }

/-- The pool hands a session object out to OnAccept of the link manager. -/
def handOut (setting : Setting) (p : Process) (l : Tcp.LinkId) (s : SessionId) :
    Option Process :=
  match Tcp.onAccept setting.tcp (Tcp.openLink p.tcp l) l (some s) with
  | .ok tcp =>
      match setting.tcp.kind with
      | .tcp => some { p with tcp := tcp }
      | .router =>
          some
            { p with
              tcp := Tcp.addSession tcp (tcp.sessions s).sessionKey s
              router := openSession p.router s
              onRouterClose := Function.update p.onRouterClose s setting.onRouterClose }
  | _ => none

/-- What happens. -/
inductive Input
  | act (a : Tcp.Act)
  | accept (l : Tcp.LinkId) (s : SessionId)
  | bindMessage (s : SessionId) (msgId : UInt32) (handler : Nat)
  | getHandler (s : SessionId) (msgId : UInt32)
  | reply (s : SessionId) (msgSeq : Nat)
  | router (e : Step)

/-- A call of a callback, unless it is the empty one. -/
def called (callback : Callback) (f : Nat → Observed) : List Observed :=
  (callback.map f).toList

/-- The onRouterClose of a router session that is closed. -/
def closing (p : Process) (s : SessionId) : List Observed :=
  if (p.router.sessions s).attached ∧ (p.router.sessions s).address.serviceName ≠ [] then
    called (p.onRouterClose s) fun f => .onRouterClose f (p.router.sessions s).address
  else []

/-- The callbacks that a step of the router calls before it does anything else. -/
def callsBefore (p : Process) : Step → List Observed
  | .close s => closing p s
  | .setAddressAns s (some (errorCode, _)) =>
      if errorCode ≠ ErrorCode.success.value then closing p s else []
  | _ => []

/-- The callbacks that a step of the router ends with. -/
def callsBehind (p : Process) (router : World) : Step → List Observed
  | .setAddressNtf s => [.onRouterAccept (router.sessions s).address]
  | .setAddressAns s (some (errorCode, remoteAddress)) =>
      if errorCode ≠ ErrorCode.success.value ∨
          router.localAddress.same remoteAddress = true then []
      else
        called (p.onRouterConnect s) fun f =>
          .onRouterConnect f (router.sessions s).address
  | _ => []

/-- A step of the router with the callbacks that it calls. -/
def routerStep (setting : Setting) (p : Process) (e : Step) : Process :=
  let observed := p.observed ++ callsBefore p e
  match Router.step setting.router p.router e with
  | .error c => { p with observed := observed, crashed := some c }
  | .ok router =>
      { p with router := router, observed := observed ++ callsBehind p router e }

/-- GetHandler of HandlerFind. -/
def getHandler (p : Process) (s : SessionId) (msgId : UInt32) : Process :=
  let found := (p.tcp.app s).find msgId
  { p with
    tcp := { p.tcp with app := Function.update p.tcp.app s found.2 }
    observed := p.observed ++ [.handler s msgId found.1] }

/-- One input. -/
def step (setting : Setting) (p : Process) (e : Input) : Process :=
  if p.crashed.isSome then p
  else
    match e with
    | .act a => { p with tcp := Tcp.act setting.tcp p.tcp a }
    | .accept l s => (p.handOut setting l s).getD p
    | .bindMessage s msgId handler =>
        { p with
          tcp :=
            { p.tcp with
              app := Function.update p.tcp.app s ((p.tcp.app s).register msgId handler) } }
    | .getHandler s msgId => p.getHandler s msgId
    | .reply s msgSeq => { p with router := findSession p.router s msgSeq }
    | .router e => routerStep setting p e

/-- The inputs in order. -/
def run (setting : Setting) (p : Process) (inputs : List Input) : Process :=
  inputs.foldl (step setting) p

/-- What can be observed of a process. -/
structure Seen where
  observed : List Observed
  crashed : Option Crash
  tcpTrace : List Tcp.Event
  tcpSent : List (Tcp.LinkId × Tcp.Message)
  tables : Tables
  sent : List (SessionId × Message)
  trace : List Event

def seen (p : Process) : Seen where
  observed := p.observed
  crashed := p.crashed
  tcpTrace := p.tcp.trace
  tcpSent := p.tcp.sent
  tables := p.router.tables
  sent := p.router.sent
  trace := p.router.trace

/-- What is seen when an object is handed out as a session, and behind it. -/
def seenAs (setting : Setting) (p : Process) (l : Tcp.LinkId) (s : SessionId) (x : Object)
    (inputs : List Input) : Option Seen :=
  ((p.put setting.tcp.kind s x).handOut setting l s).map fun q => (q.run setting inputs).seen

/-- Handed out anew, the object is not told from a new one. -/
def LikeNew (kind : Tcp.Kind) (s : SessionId) (x : Object) : Prop :=
  ∀ (setting : Setting) (p : Process) (l : Tcp.LinkId) (inputs : List Input),
    setting.tcp.kind = kind →
      p.seenAs setting l s x inputs = p.seenAs setting l s Object.new inputs

/-- OnAccept of the Tcp manager leaves nothing of the fields of a Tcp session. -/
theorem onAccept_setSession
    {A : Type} (env : Tcp.Env A) (w : Tcp.World A) (l : Tcp.LinkId) (s : SessionId)
    (x y : Tcp.Session) {w' : Tcp.World A}
    (haccept : Tcp.onAccept env (Tcp.openLink (w.setSession s x) l) l (some s) = .ok w') :
    Tcp.onAccept env (Tcp.openLink (w.setSession s y) l) l (some s) = .ok w' := by
  simp only [Tcp.onAccept, Tcp.createPacket, Tcp.openLink, Tcp.World.setLink,
    Tcp.World.setSession] at haccept ⊢
  cases hpool : env.pool w.created with
  | none =>
      rw [hpool] at haccept
      cases haccept
  | some data =>
      rw [hpool] at haccept
      rw [← haccept]
      simp [Tcp.attachSession, Tcp.attachClosure, Tcp.releaseSession, Tcp.World.setLink,
        Tcp.World.setSession, Tcp.World.setPacket, Tcp.World.log]

/-- The router part of OnAccept, in terms of the fields. -/
theorem openSession_setSession
    (w : World) (s : SessionId) (x : Session) :
    openSession (w.setSession s x) s = w.setSession s { x with attached := true } := by
  simp [openSession, World.setSession]

/-- An object with nothing left over becomes what a new one becomes. -/
theorem handOut_put
    {setting : Setting} {p : Process} {l : Tcp.LinkId} {s : SessionId} {x : Object}
    (hx : x.AsNew setting.tcp.kind) :
    (p.put setting.tcp.kind s x).handOut setting l s =
      (p.put setting.tcp.kind s Object.new).handOut setting l s := by
  have hput : ∀ y : Object, (p.put setting.tcp.kind s y).tcp =
      { p.tcp with app := Function.update p.tcp.app s y.handlers }.setSession s y.tcp := by
    intro y
    cases hkind : setting.tcp.kind <;> rfl
  have hhandlers : x.handlers = Object.new.handlers := hx.handlers
  have htcp : ∀ w',
      Tcp.onAccept setting.tcp (Tcp.openLink (p.put setting.tcp.kind s x).tcp l) l (some s) =
          .ok w' ↔
        Tcp.onAccept setting.tcp
            (Tcp.openLink (p.put setting.tcp.kind s Object.new).tcp l) l (some s) = .ok w' := by
    intro w'
    rw [hput, hput, hhandlers]
    exact ⟨onAccept_setSession _ _ _ _ _ _, onAccept_setSession _ _ _ _ _ _⟩
  simp only [handOut]
  cases haccept : Tcp.onAccept setting.tcp
      (Tcp.openLink (p.put setting.tcp.kind s Object.new).tcp l) l (some s) with
  | ok w' =>
      rw [(htcp w').mpr haccept]
      cases hkind : setting.tcp.kind with
      | tcp =>
          simp only [put]
      | router =>
          simp only [put, openSession_setSession, Function.update_idem, Object.new,
            hx.address hkind, hx.waiting hkind, hx.onRouterConnect hkind]
  | throws w' =>
      split
      · rename_i w'' hok
        rw [(htcp w'').mp hok] at haccept
        cases haccept
      · rfl
  | crash c w' =>
      split
      · rename_i w'' hok
        rw [(htcp w'').mp hok] at haccept
        cases haccept
      · rfl

/-- An object with nothing left over is like a new one. -/
theorem likeNew_of_asNew
    {kind : Tcp.Kind} {s : SessionId} {x : Object}
    (hx : x.AsNew kind) :
    LikeNew kind s x := by
  rintro setting p l inputs rfl
  rw [seenAs, handOut_put hx, seenAs]

/-- A process without application handlers. -/
def plain (kind : Tcp.Kind) : Setting where
  tcp := { Tcp.Env.listen (fun _ _ => "") (fun _ => .malformed) (fun _ => none) with kind := kind }
  router := { pool := fun _ => some Tcp.freshStorage, factory := fun _ => none }
  onRouterClose := none

/-- The address of a lobby server. -/
def lobby : Address :=
  { serviceName := [108], castType := 0, id := 1, msgSeq := 0 }

/-- What a session object is when it is handed out first of all. -/
theorem handOut_plain
    (kind : Tcp.Kind) (s : SessionId) (x : Object) :
    ∃ q, ((initial Address.default).put kind s x).handOut (plain kind) 0 s = some q ∧
      q.tcp.app s = x.handlers ∧ q.observed = [] ∧ q.crashed = none ∧
      (kind = .router →
        q.router =
            (World.initial Address.default).setSession s { x.router with attached := true } ∧
          q.onRouterConnect s = x.onRouterConnect) := by
  cases kind with
  | tcp =>
      refine ⟨_, rfl, ?_, rfl, rfl, ?_⟩
      · simp [put, initial, Tcp.attachSession, Tcp.attachClosure, Tcp.releaseSession,
          Tcp.openLink, Tcp.World.setLink, Tcp.World.setSession, Tcp.World.setPacket,
          Tcp.World.log]
      · intro hkind
        cases hkind
  | router =>
      refine ⟨_, rfl, ?_, rfl, rfl, ?_⟩
      · simp [put, initial, Tcp.attachSession, Tcp.attachClosure, Tcp.releaseSession,
          Tcp.openLink, Tcp.World.setLink, Tcp.World.setSession, Tcp.World.setPacket,
          Tcp.World.log, Tcp.addSession, Tcp.World.initial]
      · intro _
        exact ⟨openSession_setSession _ s x.router, by simp [put, initial]⟩

/-- What is seen of one input behind it. -/
theorem seen_of_likeNew
    {kind : Tcp.Kind} {s : SessionId} {x : Object} {q q' : Process}
    (hx : LikeNew kind s x)
    (hq : ((initial Address.default).put kind s x).handOut (plain kind) 0 s = some q)
    (hq' : ((initial Address.default).put kind s Object.new).handOut (plain kind) 0 s = some q')
    (e : Input) :
    (q.step (plain kind) e).seen = (q'.step (plain kind) e).seen := by
  have hseen := hx (plain kind) (initial Address.default) 0 [e] rfl
  have hkind : (plain kind).tcp.kind = kind := rfl
  rw [seenAs, seenAs, hkind, hq, hq'] at hseen
  exact Option.some.inj hseen

/-- A router session in an empty router registers the address that it has. -/
theorem step_setAddressNtf
    (env : Env) (a : Address) (s : SessionId) (x : Session) :
    ∃ w, Router.step env ((World.initial a).setSession s x) (.setAddressNtf s) = .ok w ∧
      (w.sessions s).address = x.address := by
  refine ⟨_, rfl, ?_⟩
  simp

theorem localAddress_sendMsg
    (env : Env) (w : World) (s : SessionId) (m : Message) :
    (sendMsg env w s m).localAddress = w.localAddress := by
  simp only [sendMsg, createPacket]
  cases env.pool w.created with
  | none =>
      rfl
  | some data =>
      simp only [sendTo]
      split
      · split <;> rfl
      · rfl

/-- A session that answers with an address gets it in an empty router. -/
theorem step_setAddressAns
    (env : Env) (a remote : Address) (s : SessionId) (x : Session)
    (hother : a.same remote = false) :
    ∃ w, Router.step env ((World.initial a).setSession s x)
        (.setAddressAns s (some (ErrorCode.success.value, remote))) = .ok w ∧
      w.localAddress = a := by
  have hregister : ∃ w, registerAddress ((World.initial a).setSession s x) remote s =
      .ok (true, w) ∧ w.localAddress = a :=
    ⟨_, rfl, rfl⟩
  obtain ⟨w, hw, hlocal⟩ := hregister
  refine ⟨sendMsg env w s .setAddressNtf, ?_, ?_⟩
  · simp only [Router.step, recvSetAddressAns, ne_eq, not_true, if_false, hw, hlocal, hother]
    rfl
  · exact (localAddress_sendMsg env w s .setAddressNtf).trans hlocal

/-- An object that is like a new one has nothing left over. -/
theorem asNew_of_likeNew
    {kind : Tcp.Kind} {s : SessionId} {x : Object}
    (hx : LikeNew kind s x) :
    x.AsNew kind := by
  obtain ⟨q, hq, happ, hobserved, hcrashed, hrouter⟩ := handOut_plain kind s x
  obtain ⟨q', hq', happ', hobserved', hcrashed', hrouter'⟩ := handOut_plain kind s Object.new
  have hstep : ∀ e, (q.step (plain kind) e).seen = (q'.step (plain kind) e).seen :=
    seen_of_likeNew hx hq hq'
  refine { handlers := ?_, address := ?_, waiting := ?_, onRouterConnect := ?_ }
  · funext msgId
    have hseen := congrArg Seen.observed (hstep (.getHandler s msgId))
    simp only [step, hcrashed, hcrashed', Option.isSome_none, Bool.false_eq_true, if_false, seen,
      getHandler, happ, happ', hobserved, hobserved', List.nil_append] at hseen
    have hfound : (x.handlers.find msgId).1 = (Object.new.handlers.find msgId).1 := by
      simpa using hseen
    rw [HandlerContainer.find_fst, HandlerContainer.find_fst] at hfound
    exact hfound
  · intro hkind
    obtain ⟨w, hw, haddress⟩ := step_setAddressNtf (plain kind).router Address.default s
      { x.router with attached := true }
    obtain ⟨w', hw', haddress'⟩ := step_setAddressNtf (plain kind).router Address.default s
      { Object.new.router with attached := true }
    have hseen := congrArg Seen.observed (hstep (.router (.setAddressNtf s)))
    simp only [step, hcrashed, hcrashed', Option.isSome_none, Bool.false_eq_true, if_false, seen,
      routerStep, (hrouter hkind).1, (hrouter' hkind).1, hw, hw', hobserved, hobserved',
      callsBefore, callsBehind, List.nil_append, haddress, haddress'] at hseen
    simpa [Object.new] using hseen
  · intro hkind
    funext msgSeq
    have hseen := congrArg Seen.trace (hstep (.reply s msgSeq))
    simp only [step, hcrashed, hcrashed', Option.isSome_none, Bool.false_eq_true, if_false, seen,
      (hrouter hkind).1, (hrouter' hkind).1] at hseen
    cases hwaiting : x.router.waiting msgSeq with
    | none =>
        rfl
    | some y =>
        simp [findSession, World.setSession, World.log, hwaiting, Object.new,
          World.initial] at hseen
  · intro hkind
    have hother : Address.default.same lobby = false := by decide
    obtain ⟨w, hw, hlocal⟩ := step_setAddressAns (plain kind).router Address.default lobby s
      { x.router with attached := true } hother
    obtain ⟨w', hw', hlocal'⟩ := step_setAddressAns (plain kind).router Address.default lobby s
      { Object.new.router with attached := true } hother
    have hseen := congrArg Seen.observed
      (hstep (.router (.setAddressAns s (some (ErrorCode.success.value, lobby)))))
    simp only [step, hcrashed, hcrashed', Option.isSome_none, Bool.false_eq_true, if_false, seen,
      routerStep, (hrouter hkind).1, (hrouter' hkind).1, hw, hw', hobserved, hobserved',
      callsBefore, callsBehind, List.nil_append, hlocal, hlocal', hother, (hrouter hkind).2,
      (hrouter' hkind).2] at hseen
    cases hconnect : x.onRouterConnect with
    | none =>
        rfl
    | some f =>
        simp [called, hconnect, Object.new] at hseen

/-- Whatever a session object was used for, it is like a new one when it is handed out
again exactly if nothing is left over in it. -/
theorem reused_iff
    (kind : Tcp.Kind) (setting : Setting) (localAddress : Address) (history : List Input)
    (s : SessionId) :
    LikeNew kind s (((initial localAddress).run setting history).object s) ↔
      (((initial localAddress).run setting history).object s).AsNew kind :=
  ⟨asNew_of_likeNew, likeNew_of_asNew⟩

/-- A handler that the last owner of the object bound is found by the next one. -/
theorem not_likeNew_bound :
    ¬ ∀ (kind : Tcp.Kind) (setting : Setting) (localAddress : Address) (history : List Input)
      (s : SessionId),
      LikeNew kind s (((initial localAddress).run setting history).object s) := by
  intro h
  have hlike := h .tcp (plain .tcp) Address.default
    [.accept 0 0, .bindMessage 0 7 1, .act (.close 0 0)] 0
  have hnone := congrFun (asNew_of_likeNew hlike).handlers 7
  have hbound : (((initial Address.default).run (plain .tcp)
      [.accept 0 0, .bindMessage 0 7 1, .act (.close 0 0)]).object 0).handlers 7 = some 1 := by
    rfl
  rw [hbound] at hnone
  cases hnone

end Process

end Router
end Gamnet
