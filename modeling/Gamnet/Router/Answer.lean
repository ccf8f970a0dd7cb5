import Gamnet.Lib.Transition
import Mathlib.Algebra.Group.Nat.Defs
import Mathlib.Data.List.Nodup
import Mathlib.Logic.Function.Basic

/-!
# Requests of handlers and their answers

A handler of a client session binds itself to the message id of the answer that it
expects and sends a request through the router. The reply finds the client session by
the number of the request, in the waiting table of the router session that it comes
from, and a closure on the strand of the client's link then finds the handler in the
container of the session by the message id alone. Bind overwrites, and finding erases.

Each request is numbered by its place in the list of requests; the number that it is
sent with wraps around. A waiting entry also tells the request that made it, and a
closure the request that its reply answers; the code has the sessions only. The answer
types are registered with HandlerFind and the client sessions are linked.
-/

namespace Gamnet
namespace Router

/-- The handlers of a session that wait for a message, HandlerContainer. -/
abbrev HandlerContainer : Type := UInt32 → Option Nat

namespace HandlerContainer

/-- Register. -/
def register (c : HandlerContainer) (msgId : UInt32) (handler : Nat) : HandlerContainer :=
  Function.update c msgId (some handler)

/-- Find. -/
def find (c : HandlerContainer) (msgId : UInt32) : Option Nat × HandlerContainer :=
  match c msgId with
  | none => (none, c)
  | some handler => (some handler, Function.update c msgId none)

/-- Find returns what is bound. -/
theorem find_fst
    (c : HandlerContainer) (msgId : UInt32) :
    (c.find msgId).1 = c msgId := by
  simp only [find]
  split
  · rename_i hnone
    exact hnone.symm
  · rename_i handler hsome
    exact hsome.symm

end HandlerContainer

/-- A request: the client session, the handler that issues it, the message id of the
answer, and the router sessions that the caster sends it to. -/
structure Request where
  client : Nat
  handler : Nat
  answerId : UInt32
  targets : List Nat

/-- A closure on the strand of a client: the request that its reply answers, and the
message id of the reply. -/
structure Closure where
  reply : Nat
  msgId : UInt32

/-- The counter of RouterCaster, the waiting tables of the router sessions, the
containers and the strands of the clients, the requests with their numbers, the replies
that arrived, by request and router session, and which handler each reply was processed
by. -/
structure Exchange where
  msgSeq : Nat
  waiting : Nat → Nat → Option Nat
  containers : Nat → HandlerContainer
  posted : Nat → List Closure
  requests : List (Request × Nat)
  arrived : List (Nat × Nat)
  processed : List (Nat × Option Nat)

namespace Exchange

/-- Before the first request. -/
def start : Exchange where
  msgSeq := 1
  waiting := fun _ _ => none
  containers := fun _ _ => none
  posted := fun _ => []
  requests := []
  arrived := []
  processed := []

/-- BindMessage. -/
def bindMessage (w : Exchange) (x : Request) : Exchange :=
  { w with
    containers := Function.update w.containers x.client
      ((w.containers x.client).register x.answerId x.handler) }

/-- SendMsg: AddSession of each router session does not replace an entry. -/
def sendMsg (w : Exchange) (x : Request) : Exchange :=
  { w with
    msgSeq := (w.msgSeq + 1) % 2 ^ 32
    waiting := fun r n =>
      if r ∈ x.targets ∧ n = w.msgSeq ∧ w.waiting r n = none then some w.requests.length
      else w.waiting r n
    requests := w.requests ++ [(x, w.msgSeq)] }

/-- Dispatcher::OnRecvMsg of a reply, with the number of its request: FindSession, and
the closure is posted to the strand of the client. -/
def onRecvMsg (w : Exchange) (j r : Nat) (x : Request × Nat) : Exchange :=
  let w := { w with arrived := w.arrived ++ [(j, r)] }
  match w.waiting r x.2 with
  | none => { w with processed := w.processed ++ [(j, none)] }
  | some k =>
      let client := ((w.requests[k]?).map fun y => y.1.client).getD 0
      { w with
        waiting := Function.update w.waiting r (Function.update (w.waiting r) x.2 none)
        posted := Function.update w.posted client
          (w.posted client ++ [⟨j, x.1.answerId⟩]) }

/-- A closure: GetHandler of HandlerFind. -/
def getHandler (w : Exchange) (client : Nat) (x : Closure) (rest : List Closure) : Exchange :=
  let found := (w.containers client).find x.msgId
  { w with
    posted := Function.update w.posted client rest
    containers := Function.update w.containers client found.2
    processed := w.processed ++ [(x.reply, found.1)] }

/-- The sweep of a waiting table. -/
def sweep (w : Exchange) (r : Nat) (expired : Nat → Bool) : Exchange :=
  { w with
    waiting := Function.update w.waiting r
      fun n => if expired n then none else w.waiting r n }

/-- A handler issues a request, a reply to a request arrives from a router session that
got it, the strand of a client runs its next closure, or a waiting table is swept. -/
inductive Step
  | request (x : Request)
  | reply (j r : Nat)
  | run (client : Nat)
  | sweep (r : Nat) (expired : Nat → Bool)

/-- One step. Every router session that got a request replies once. -/
def step (w : Exchange) : Step → Option Exchange
  | .request x => some ((w.bindMessage x).sendMsg x)
  | .reply j r =>
      match w.requests[j]? with
      | none => none
      | some x =>
          if r ∈ x.1.targets ∧ (j, r) ∉ w.arrived then some (w.onRecvMsg j r x) else none
  | .run client =>
      match w.posted client with
      | [] => none
      | x :: rest => some (w.getHandler client x rest)
  | .sweep r expired => some (w.sweep r expired)

/-- The steps in order. -/
abbrev run : Exchange → List Step → Option Exchange :=
  Transition.run step

/-- Every reply that was processed was processed by the handler that issued its request,
and by no other and not again; every reply that arrived was processed or waits on the
strand of its client. -/
structure Answered (w : Exchange) : Prop where
  handler : ∀ j o, (j, o) ∈ w.processed → ∃ x : Request × Nat, w.requests[j]? = some x ∧
    o = some x.1.handler
  once : (w.processed.map Prod.fst).Nodup
  arrived : ∀ j r, (j, r) ∈ w.arrived → j ∈ w.processed.map Prod.fst ∨
    ∃ (x : Request × Nat) (y : Closure), w.requests[j]? = some x ∧
      y ∈ w.posted x.1.client ∧ y.reply = j

/-- The reply of the request has not arrived, or its closure has not run. -/
def Open (w : Exchange) (j : Nat) (x : Request) : Prop :=
  (∃ r ∈ x.targets, (j, r) ∉ w.arrived) ∨ ∃ y ∈ w.posted x.client, y.reply = j

/-- A request goes to one router session at most, where its number is not waiting, and no
request of its session is open that expects the same message id. A sweep takes no entry. -/
def Alone (w : Exchange) : Step → Prop
  | .request x => x.targets.length ≤ 1 ∧ (∀ r ∈ x.targets, w.waiting r w.msgSeq = none) ∧
      ∀ (j : Nat) (y : Request × Nat), w.requests[j]? = some y → w.Open j y.1 →
        y.1.client = x.client → y.1.answerId ≠ x.answerId
  | .sweep r expired => ∀ n, expired n → w.waiting r n = none
  | _ => True

/-- The invariant of requests that are alone. An open request has its handler in the
container, and no other open request of its session expects the same id. -/
structure Matched (w : Exchange) : Prop where
  targets : ∀ (j : Nat) (x : Request × Nat), w.requests[j]? = some x → x.1.targets.length ≤ 1
  waiting : ∀ (j : Nat) (x : Request × Nat) r, w.requests[j]? = some x → r ∈ x.1.targets →
    (j, r) ∉ w.arrived → w.waiting r x.2 = some j
  bound : ∀ (j : Nat) (x : Request × Nat), w.requests[j]? = some x → w.Open j x.1 →
    w.containers x.1.client x.1.answerId = some x.1.handler
  distinct : ∀ (i j : Nat) (x y : Request × Nat), w.requests[i]? = some x →
    w.requests[j]? = some y → w.Open i x.1 → w.Open j y.1 → x.1.client = y.1.client →
    x.1.answerId = y.1.answerId → i = j
  posted : ∀ c, ∀ y ∈ w.posted c, ∃ x : Request × Nat, w.requests[y.reply]? = some x ∧
    x.1.client = c ∧ y.msgId = x.1.answerId
  nodup : ∀ c, ((w.posted c).map Closure.reply).Nodup
  arrived : ∀ j r, (j, r) ∈ w.arrived → ∃ x : Request × Nat, w.requests[j]? = some x ∧
    r ∈ x.1.targets
  reached : ∀ c, ∀ y ∈ w.posted c, ∃ r, (y.reply, r) ∈ w.arrived
  processed : ∀ j ∈ w.processed.map Prod.fst, ∃ r, (j, r) ∈ w.arrived
  closed : ∀ c, ∀ y ∈ w.posted c, y.reply ∉ w.processed.map Prod.fst
  answered : w.Answered

theorem start_matched :
    start.Matched where
  targets := by intro j x hx; cases hx
  waiting := by intro j x r hx; cases hx
  bound := by intro j x hx; cases hx
  distinct := by intro i j x y hx; cases hx
  posted := by intro c y hy; cases hy
  nodup := fun _ => List.nodup_nil
  arrived := by intro j r hr; cases hr
  reached := by intro c y hy; cases hy
  processed := by intro j hj; cases hj
  closed := by intro c y hy; cases hy
  answered :=
    { handler := by intro j o ho; cases ho
      once := List.nodup_nil
      arrived := by intro j r hr; cases hr }

section Request

variable {w : Exchange} {x : Request}

/-- The requests behind a request are the old ones and the new one. -/
theorem request_getElem?
    (w : Exchange) (x : Request) {j : Nat} {y : Request × Nat}
    (hy : ((w.bindMessage x).sendMsg x).requests[j]? = some y) :
    w.requests[j]? = some y ∨ j = w.requests.length ∧ y = (x, w.msgSeq) := by
  have hget : (w.requests ++ [(x, w.msgSeq)])[j]? = some y := hy
  rw [List.getElem?_append] at hget
  split at hget
  · exact Or.inl hget
  · rename_i hlt
    have hj : j - w.requests.length = 0 := by
      by_contra hne
      rw [List.getElem?_eq_none (by simp; omega)] at hget
      cases hget
    rw [hj] at hget
    cases hget
    exact Or.inr ⟨by omega, rfl⟩

theorem request_getElem?_of_some
    (x : Request) {j : Nat} {y : Request × Nat}
    (hy : w.requests[j]? = some y) :
    ((w.bindMessage x).sendMsg x).requests[j]? = some y := by
  have hlt : j < w.requests.length := (List.getElem?_eq_some_iff.mp hy).1
  exact (List.getElem?_append_left hlt).trans hy

/-- A request that is alone keeps the invariant. -/
theorem Matched.request
    (hw : w.Matched)
    (hx : w.Alone (.request x)) :
    ((w.bindMessage x).sendMsg x).Matched := by
  obtain ⟨htargets, hnumber, hid⟩ := hx
  refine
    { targets := ?_, waiting := ?_, bound := ?_, distinct := ?_, posted := ?_
      nodup := hw.nodup, arrived := ?_, reached := hw.reached, processed := hw.processed
      closed := hw.closed, answered := ?_ }
  · intro j y hy
    rcases request_getElem? w x hy with hold | ⟨rfl, rfl⟩
    · exact hw.targets j y hold
    · exact htargets
  · intro j y r hy hr harrived
    have hentry : ((w.bindMessage x).sendMsg x).waiting r y.2 =
        if r ∈ x.targets ∧ y.2 = w.msgSeq ∧ w.waiting r y.2 = none then
          some w.requests.length
        else w.waiting r y.2 := rfl
    rw [hentry]
    rcases request_getElem? w x hy with hold | ⟨rfl, rfl⟩
    · have hwaiting := hw.waiting j y r hold hr harrived
      rw [if_neg (by simp [hwaiting])]
      exact hwaiting
    · exact if_pos ⟨hr, rfl, hnumber r hr⟩
  · intro j y hy hopen
    have hcontainer : ((w.bindMessage x).sendMsg x).containers y.1.client y.1.answerId =
        Function.update w.containers x.client
          ((w.containers x.client).register x.answerId x.handler)
          y.1.client y.1.answerId := rfl
    rw [hcontainer]
    rcases request_getElem? w x hy with hold | ⟨rfl, rfl⟩
    · have hbound := hw.bound j y hold hopen
      by_cases hclient : y.1.client = x.client
      · have hne := hid j y hold hopen hclient
        rw [hclient, Function.update_self, HandlerContainer.register,
          Function.update_of_ne hne, ← hclient]
        exact hbound
      · rw [Function.update_of_ne hclient]
        exact hbound
    · rw [Function.update_self]
      exact Function.update_self x.answerId (some x.handler) (w.containers x.client)
  · intro i j y z hy hz hopen hopen' hclient hanswer
    rcases request_getElem? w x hy with hold | ⟨rfl, rfl⟩
    · rcases request_getElem? w x hz with hold' | ⟨rfl, rfl⟩
      · exact hw.distinct i j y z hold hold' hopen hopen' hclient hanswer
      · exact absurd hanswer (hid i y hold hopen hclient)
    · rcases request_getElem? w x hz with hold' | ⟨rfl, rfl⟩
      · exact absurd hanswer.symm (hid j z hold' hopen' hclient.symm)
      · rfl
  · intro c y hy
    obtain ⟨z, hz, hclient, hmsgId⟩ := hw.posted c y hy
    exact ⟨z, request_getElem?_of_some x hz, hclient, hmsgId⟩
  · intro j r hr
    obtain ⟨z, hz, hmem⟩ := hw.arrived j r hr
    exact ⟨z, request_getElem?_of_some x hz, hmem⟩
  · refine { handler := ?_, once := hw.answered.once, arrived := ?_ }
    · intro j o ho
      obtain ⟨z, hz, heq⟩ := hw.answered.handler j o ho
      exact ⟨z, request_getElem?_of_some x hz, heq⟩
    · intro j r hr
      rcases hw.answered.arrived j r hr with hdone | ⟨z, y, hz, hy, hreply⟩
      · exact Or.inl hdone
      · exact Or.inr ⟨z, y, request_getElem?_of_some x hz, hy, hreply⟩

end Request

section Reply

variable {w : Exchange} {j r : Nat} {x : Request × Nat}

theorem mem_update_append
    {f : Nat → List Closure} {c d : Nat} {y z : Closure} :
    z ∈ Function.update f c (f c ++ [y]) d ↔ z ∈ f d ∨ d = c ∧ z = y := by
  by_cases hd : d = c
  · subst hd
    simp
  · simp [hd]

/-- A reply that finds the session of its request. -/
def forward (w : Exchange) (j r : Nat) (x : Request × Nat) : Exchange :=
  { w with
    arrived := w.arrived ++ [(j, r)]
    waiting := Function.update w.waiting r (Function.update (w.waiting r) x.2 none)
    posted := Function.update w.posted x.1.client
      (w.posted x.1.client ++ [⟨j, x.1.answerId⟩]) }

/-- The reply of a request that is alone is its only one. -/
theorem Matched.not_arrived
    (hw : w.Matched)
    (hx : w.requests[j]? = some x)
    (hr : r ∈ x.1.targets)
    (hnew : (j, r) ∉ w.arrived)
    (t : Nat) :
    (j, t) ∉ w.arrived := by
  intro ht
  obtain ⟨y, hy, hmem⟩ := hw.arrived j t ht
  obtain rfl : x = y := Option.some.inj (hx.symm.trans hy)
  have hone : x.1.targets = [r] := by
    have hlength := hw.targets j x hx
    cases hlist : x.1.targets with
    | nil =>
        simp [hlist] at hr
    | cons a as =>
        cases as with
        | nil =>
            simp only [hlist, List.mem_singleton] at hr
            rw [hr]
        | cons b bs =>
            simp [hlist] at hlength
  rw [hone, List.mem_singleton] at hmem
  exact hnew (hmem ▸ ht)

/-- What the reply of a request does that is alone. -/
theorem Matched.onRecvMsg_eq
    (hw : w.Matched)
    (hx : w.requests[j]? = some x)
    (hr : r ∈ x.1.targets)
    (hnew : (j, r) ∉ w.arrived) :
    w.onRecvMsg j r x = w.forward j r x := by
  have hwaiting := hw.waiting j x r hx hr hnew
  simp [onRecvMsg, forward, hwaiting, hx]

/-- A request that is open behind a reply was open in front of it. -/
theorem open_of_forward
    (hx : w.requests[j]? = some x)
    (hr : r ∈ x.1.targets)
    (hnew : (j, r) ∉ w.arrived)
    {k : Nat} {y : Request × Nat}
    (hy : w.requests[k]? = some y)
    (hopen : (w.forward j r x).Open k y.1) :
    w.Open k y.1 := by
  rcases hopen with ⟨t, ht, harrived⟩ | ⟨z, hz, hreply⟩
  · exact Or.inl ⟨t, ht, fun hmem => harrived (List.mem_append_left _ hmem)⟩
  · rcases mem_update_append.mp hz with hold | ⟨_, rfl⟩
    · exact Or.inr ⟨z, hold, hreply⟩
    · obtain rfl : j = k := hreply
      obtain rfl : x = y := Option.some.inj (hx.symm.trans hy)
      exact Or.inl ⟨r, hr, hnew⟩

/-- The reply of a request that is alone keeps the invariant. -/
theorem Matched.onRecvMsg
    (hw : w.Matched)
    (hx : w.requests[j]? = some x)
    (hr : r ∈ x.1.targets)
    (hnew : (j, r) ∉ w.arrived) :
    (w.onRecvMsg j r x).Matched := by
  have honly := hw.not_arrived hx hr hnew
  have hposted : ∀ c, ∀ y ∈ w.posted c, y.reply ≠ j := by
    intro c y hy heq
    obtain ⟨t, ht⟩ := hw.reached c y hy
    exact honly t (heq ▸ ht)
  have hprocessed : j ∉ w.processed.map Prod.fst := by
    intro hdone
    obtain ⟨t, ht⟩ := hw.processed j hdone
    exact honly t ht
  rw [hw.onRecvMsg_eq hx hr hnew]
  refine
    { targets := hw.targets, waiting := ?_, bound := ?_, distinct := ?_, posted := ?_
      nodup := ?_, arrived := ?_, reached := ?_, processed := ?_, closed := ?_
      answered := ?_ }
  · intro k y t hy ht harrived
    have hold : (k, t) ∉ w.arrived := fun hmem => harrived (List.mem_append_left _ hmem)
    have hwaiting := hw.waiting k y t hy ht hold
    by_cases htr : t = r
    · subst htr
      by_cases hnumber : y.2 = x.2
      · -- The entry would be that of the request whose reply arrived.
        rw [hnumber, hw.waiting j x t hx hr hnew] at hwaiting
        obtain rfl : j = k := Option.some.inj hwaiting
        exact absurd (List.mem_append_right _ (List.mem_singleton.mpr rfl)) harrived
      · simpa [forward, hnumber] using hwaiting
    · simpa [forward, htr] using hwaiting
  · intro k y hy hk
    exact hw.bound k y hy (open_of_forward hx hr hnew hy hk)
  · intro i k y z hy hz hi hk hclient hanswer
    exact hw.distinct i k y z hy hz (open_of_forward hx hr hnew hy hi)
      (open_of_forward hx hr hnew hz hk) hclient hanswer
  · intro c y hy
    rcases mem_update_append.mp hy with hold | ⟨rfl, rfl⟩
    · exact hw.posted c y hold
    · exact ⟨x, hx, rfl, rfl⟩
  · intro c
    by_cases hc : c = x.1.client
    · subst hc
      simp only [forward, Function.update_self, List.map_append, List.map_cons, List.map_nil]
      refine (hw.nodup x.1.client).append (List.nodup_singleton j) ?_
      intro k hk hj
      obtain rfl : k = j := List.mem_singleton.mp hj
      obtain ⟨y, hy, heq⟩ := List.mem_map.mp hk
      exact hposted x.1.client y hy heq
    · simp only [forward, Function.update_of_ne hc]
      exact hw.nodup c
  · intro k t ht
    rcases List.mem_append.mp ht with hold | hlast
    · exact hw.arrived k t hold
    · cases List.mem_singleton.mp hlast
      exact ⟨x, hx, hr⟩
  · intro c y hy
    rcases mem_update_append.mp hy with hold | ⟨rfl, rfl⟩
    · obtain ⟨t, ht⟩ := hw.reached c y hold
      exact ⟨t, List.mem_append_left _ ht⟩
    · exact ⟨r, List.mem_append_right _ (List.mem_singleton.mpr rfl)⟩
  · intro k hk
    obtain ⟨t, ht⟩ := hw.processed k hk
    exact ⟨t, List.mem_append_left _ ht⟩
  · intro c y hy
    rcases mem_update_append.mp hy with hold | ⟨rfl, rfl⟩
    · exact hw.closed c y hold
    · exact hprocessed
  · refine { handler := hw.answered.handler, once := hw.answered.once, arrived := ?_ }
    intro k t ht
    rcases List.mem_append.mp ht with hold | hlast
    · rcases hw.answered.arrived k t hold with hdone | ⟨y, z, hy, hz, hreply⟩
      · exact Or.inl hdone
      · exact Or.inr ⟨y, z, hy, mem_update_append.mpr (Or.inl hz), hreply⟩
    · cases List.mem_singleton.mp hlast
      exact Or.inr ⟨x, ⟨j, x.1.answerId⟩, hx, mem_update_append.mpr (Or.inr ⟨rfl, rfl⟩), rfl⟩

end Reply

section GetHandler

variable {w : Exchange} {client : Nat} {x : Closure} {rest : List Closure}

theorem mem_of_update_cons
    {f : Nat → List Closure} {c : Nat} {y : Closure}
    (hf : f client = x :: rest)
    (hy : y ∈ Function.update f client rest c) :
    y ∈ f c := by
  by_cases hc : c = client
  · subst hc
    rw [Function.update_self] at hy
    rw [hf]
    exact List.mem_cons_of_mem x hy
  · rwa [Function.update_of_ne hc] at hy

/-- A closure that finds a handler. -/
def handle (w : Exchange) (client : Nat) (x : Closure) (rest : List Closure)
    (handler : Nat) : Exchange :=
  { w with
    posted := Function.update w.posted client rest
    containers := Function.update w.containers client
      (Function.update (w.containers client) x.msgId none)
    processed := w.processed ++ [(x.reply, some handler)] }

theorem handle_processed
    (handler : Nat) :
    (w.handle client x rest handler).processed.map Prod.fst =
      w.processed.map Prod.fst ++ [x.reply] := by
  simp [handle]

/-- The closures that are left answer other requests. -/
theorem Matched.ne_of_mem_rest
    (hw : w.Matched)
    (hposted : w.posted client = x :: rest)
    {c : Nat} {y : Closure}
    (hy : y ∈ Function.update w.posted client rest c) :
    y.reply ≠ x.reply := by
  intro heq
  have hx : x ∈ w.posted client := by rw [hposted]; exact List.mem_cons_self
  by_cases hc : c = client
  · subst hc
    rw [Function.update_self] at hy
    have hnodup := hw.nodup c
    rw [hposted, List.map_cons, List.nodup_cons] at hnodup
    exact hnodup.1 (List.mem_map.mpr ⟨y, hy, heq⟩)
  · rw [Function.update_of_ne hc] at hy
    obtain ⟨z, hz, hclient, _⟩ := hw.posted c y hy
    obtain ⟨u, hu, hclient', _⟩ := hw.posted client x hx
    rw [heq, hu] at hz
    obtain rfl : u = z := Option.some.inj hz
    exact hc (hclient.symm.trans hclient')

/-- The closure of a reply finds the handler of its request. -/
theorem Matched.getHandler_eq
    (hw : w.Matched)
    (hposted : w.posted client = x :: rest) :
    ∃ y : Request × Nat, w.requests[x.reply]? = some y ∧ y.1.client = client ∧
      x.msgId = y.1.answerId ∧ w.Open x.reply y.1 ∧
      w.getHandler client x rest = w.handle client x rest y.1.handler := by
  have hx : x ∈ w.posted client := by rw [hposted]; exact List.mem_cons_self
  obtain ⟨y, hy, hclient, hmsgId⟩ := hw.posted client x hx
  have hopen : w.Open x.reply y.1 := Or.inr ⟨x, hclient ▸ hx, rfl⟩
  have hbound := hw.bound x.reply y hy hopen
  have hfind : (w.containers client).find x.msgId =
      (some y.1.handler, Function.update (w.containers client) x.msgId none) := by
    rw [hclient, ← hmsgId] at hbound
    simp [HandlerContainer.find, hbound]
  exact ⟨y, hy, hclient, hmsgId, hopen, by simp [Exchange.getHandler, handle, hfind]⟩

/-- A request that is open behind a closure was open in front of it, and the closure is
not that of its reply. -/
theorem Matched.open_of_handle
    (hw : w.Matched)
    (hposted : w.posted client = x :: rest)
    {handler k : Nat} {z : Request × Nat}
    (hz : w.requests[k]? = some z)
    (hopen : (w.handle client x rest handler).Open k z.1) :
    w.Open k z.1 ∧ k ≠ x.reply := by
  have hx : x ∈ w.posted client := by rw [hposted]; exact List.mem_cons_self
  obtain ⟨r, hr⟩ := hw.reached client x hx
  rcases hopen with ⟨t, ht, harrived⟩ | ⟨u, hu, hreply⟩
  · refine ⟨Or.inl ⟨t, ht, harrived⟩, ?_⟩
    rintro rfl
    exact hw.not_arrived hz ht harrived r hr
  · exact ⟨Or.inr ⟨u, mem_of_update_cons hposted hu, hreply⟩,
      fun heq => hw.ne_of_mem_rest hposted hu (hreply.trans heq)⟩

/-- The reply of the closure is processed, by the handler of its request. -/
theorem Matched.answered_handle
    (hw : w.Matched)
    (hposted : w.posted client = x :: rest)
    {y : Request × Nat}
    (hy : w.requests[x.reply]? = some y) :
    (w.handle client x rest y.1.handler).Answered := by
  have hx : x ∈ w.posted client := by rw [hposted]; exact List.mem_cons_self
  refine { handler := ?_, once := ?_, arrived := ?_ }
  · intro k o ho
    rcases List.mem_append.mp ho with hold | hlast
    · exact hw.answered.handler k o hold
    · cases List.mem_singleton.mp hlast
      exact ⟨y, hy, rfl⟩
  · rw [handle_processed]
    refine hw.answered.once.append (List.nodup_singleton x.reply) ?_
    intro k hk hlast
    obtain rfl : k = x.reply := List.mem_singleton.mp hlast
    exact hw.closed client x hx hk
  · intro k t ht
    rw [handle_processed, List.mem_append, List.mem_singleton]
    rcases hw.answered.arrived k t ht with hdone | ⟨z, u, hz, hu, hreply⟩
    · exact Or.inl (Or.inl hdone)
    · by_cases hk : k = x.reply
      · exact Or.inl (Or.inr hk)
      · right
        refine ⟨z, u, hz, ?_, hreply⟩
        by_cases hc : z.1.client = client
        · rw [hc, hposted] at hu
          rcases List.mem_cons.mp hu with rfl | hrest
          · exact absurd hreply.symm hk
          · simpa [handle, hc] using hrest
        · simpa [handle, hc] using hu

/-- The closure of a reply keeps the invariant. -/
theorem Matched.getHandler
    (hw : w.Matched)
    (hposted : w.posted client = x :: rest) :
    (w.getHandler client x rest).Matched := by
  have hx : x ∈ w.posted client := by rw [hposted]; exact List.mem_cons_self
  obtain ⟨r, hr⟩ := hw.reached client x hx
  obtain ⟨y, hy, hclient, hmsgId, hopened, hhandle⟩ := hw.getHandler_eq hposted
  rw [hhandle]
  refine
    { targets := hw.targets, waiting := hw.waiting, bound := ?_, distinct := ?_, posted := ?_
      nodup := ?_, arrived := hw.arrived, reached := ?_, processed := ?_, closed := ?_
      answered := hw.answered_handle hposted hy }
  · intro k z hz hk
    obtain ⟨hold, hne⟩ := hw.open_of_handle hposted hz hk
    have hbound := hw.bound k z hz hold
    by_cases hc : z.1.client = client
    · have hid : z.1.answerId ≠ x.msgId := by
        intro heq
        exact hne (hw.distinct k x.reply z y hz hy hold hopened (hc.trans hclient.symm)
          (heq.trans hmsgId))
      rw [hc] at hbound
      simpa [handle, hc, hid] using hbound
    · simpa [handle, hc] using hbound
  · intro i k z u hz hu hi hk hclients hanswer
    exact hw.distinct i k z u hz hu (hw.open_of_handle hposted hz hi).1
      (hw.open_of_handle hposted hu hk).1 hclients hanswer
  · intro c z hz
    exact hw.posted c z (mem_of_update_cons hposted hz)
  · intro c
    by_cases hc : c = client
    · subst hc
      have hnodup := hw.nodup c
      rw [hposted, List.map_cons, List.nodup_cons] at hnodup
      simp only [handle, Function.update_self]
      exact hnodup.2
    · simp only [handle, Function.update_of_ne hc]
      exact hw.nodup c
  · intro c z hz
    exact hw.reached c z (mem_of_update_cons hposted hz)
  · intro k hk
    rw [handle_processed, List.mem_append] at hk
    rcases hk with hold | hlast
    · exact hw.processed k hold
    · obtain rfl : k = x.reply := List.mem_singleton.mp hlast
      exact ⟨r, hr⟩
  · intro c z hz hdone
    rw [handle_processed, List.mem_append] at hdone
    rcases hdone with hold | hlast
    · exact hw.closed c z (mem_of_update_cons hposted hz) hold
    · exact hw.ne_of_mem_rest hposted hz (List.mem_singleton.mp hlast)

end GetHandler

/-- A sweep that takes no entry changes nothing. -/
theorem sweep_eq
    {w : Exchange} {r : Nat} {expired : Nat → Bool}
    (hnone : ∀ n, expired n → w.waiting r n = none) :
    w.sweep r expired = w := by
  have hrow : (fun n => if expired n then none else w.waiting r n) = w.waiting r := by
    funext n
    split
    · rename_i hn
      exact (hnone n hn).symm
    · rfl
  rw [sweep, hrow, Function.update_eq_self]

/-- Steps that are alone keep the invariant. -/
theorem Matched.step
    {w w' : Exchange} {e : Step}
    (hw : w.Matched)
    (he : w.Alone e)
    (hstep : w.step e = some w') :
    w'.Matched := by
  cases e with
  | request x =>
      cases hstep
      exact hw.request he
  | reply j r =>
      simp only [Exchange.step] at hstep
      split at hstep
      · cases hstep
      · rename_i x hx
        split at hstep
        · rename_i hr
          cases hstep
          exact hw.onRecvMsg hx hr.1 hr.2
        · cases hstep
  | run client =>
      simp only [Exchange.step] at hstep
      split at hstep
      · cases hstep
      · rename_i x rest hposted
        cases hstep
        exact hw.getHandler hposted
  | sweep r expired =>
      cases hstep
      rw [sweep_eq he]
      exact hw

/-- Where every request of a run is alone, each reply reaches the handler that asked. -/
theorem run_answered
    {steps : List Step} {w : Exchange}
    (halone : Transition.Along step Alone start steps)
    (hrun : run start steps = some w) :
    w.Answered :=
  (Transition.Along.invariant Matched (fun _ _ _ hw he hstep => hw.step he hstep)
    start_matched halone hrun).answered

/-- Two requests for different answers, with the replies in the other order. -/
theorem run_answered_two :
    ∃ w, run start [.request ⟨0, 1, 10, [5]⟩, .request ⟨0, 2, 11, [5]⟩, .reply 1 5,
      .reply 0 5, .run 0, .run 0] = some w ∧ w.processed = [(1, some 2), (0, some 1)] ∧
      w.Answered := by
  have hruns : ∃ w, run start [.request ⟨0, 1, 10, [5]⟩, .request ⟨0, 2, 11, [5]⟩,
      .reply 1 5, .reply 0 5, .run 0, .run 0] = some w ∧
      w.processed = [(1, some 2), (0, some 1)] :=
    ⟨_, rfl, rfl⟩
  obtain ⟨w, hrun, hprocessed⟩ := hruns
  refine ⟨w, hrun, hprocessed, run_answered ?_ hrun⟩
  refine ⟨⟨by decide, by simp [start], by simp [start]⟩, ?_⟩
  rintro w hw
  obtain rfl := Option.some.inj hw
  refine ⟨⟨by decide, ?_, ?_⟩, ?_⟩
  · simp [start, bindMessage, sendMsg]
  · intro j y hy _ _
    rcases request_getElem? start ⟨0, 1, 10, [5]⟩ hy with hold | ⟨_, rfl⟩
    · cases hold
    · decide
  · exact fun _ _ => ⟨trivial, fun _ _ => ⟨trivial, fun _ _ => ⟨trivial, fun _ _ =>
      ⟨trivial, fun _ _ => trivial⟩⟩⟩⟩

/-- Two handlers of a session that wait for the same message: the reply to the first
request is processed by the second handler, and the reply to the second by none. -/
theorem not_answered_same_message :
    ¬ ∀ (steps : List Step) (w : Exchange), run start steps = some w → w.Answered := by
  intro h
  have hanswered := h [.request ⟨0, 1, 10, [5]⟩, .request ⟨0, 2, 10, [5]⟩, .reply 0 5, .run 0]
    _ rfl
  obtain ⟨x, hx, heq⟩ := hanswered.handler 0 (some 2) (List.mem_singleton.mpr rfl)
  cases hx
  cases heq

end Exchange

end Router
end Gamnet
