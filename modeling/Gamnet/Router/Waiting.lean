import Gamnet.Router.RouterHandler
import Gamnet.Tcp.LinkManager
import Mathlib.Data.List.Nodup

/-!
# Replies and the client sessions that wait for them

SendMsg takes a number from a 32-bit counter, enters the client session under
that number in the waiting table of each router session that it addresses, and
a reply takes the entry out again. Entries also go with a sweep, with a clear, or
when the router session closes, and a number that waits already is not entered
again.

`Correlated` is the invariant behind this: it relates the counter, the calls that
have their number but have not entered their caster, the waiting tables, and the
replies that were answered. Numbers come around after 2^32 calls; as long as no
entry waits that long, its number belongs to no later call.
-/

namespace Gamnet
namespace Router

section Shrinking

/-- What is left alone while waiting tables only lose entries. -/
structure Shrinks (w w' : World) : Prop where
  waiting : ∀ r n x, (w'.sessions r).waiting n = some x →
    (w.sessions r).waiting n = some x
  msgSeq : w'.msgSeq = w.msgSeq
  calls : w'.calls = w.calls
  pending : w'.pending = w.pending
  casting : w'.casting = w.casting
  trace : w'.trace = w.trace

namespace Shrinks

theorem refl
    (w : World) :
    Shrinks w w :=
  ⟨fun _ _ _ h => h, rfl, rfl, rfl, rfl, rfl⟩

theorem trans
    {w₁ w₂ w₃ : World}
    (h₁ : Shrinks w₁ w₂)
    (h₂ : Shrinks w₂ w₃) :
    Shrinks w₁ w₃ where
  waiting := fun r n x h => h₁.waiting r n x (h₂.waiting r n x h)
  msgSeq := h₂.msgSeq.trans h₁.msgSeq
  calls := h₂.calls.trans h₁.calls
  pending := h₂.pending.trans h₁.pending
  casting := h₂.casting.trans h₁.casting
  trace := h₂.trace.trans h₁.trace

end Shrinks

/-- Overwriting a session with a waiting table that has no new entries. -/
theorem shrinks_setSession
    (w : World) (s : SessionId) (x : Session)
    (h : ∀ n y, x.waiting n = some y → (w.sessions s).waiting n = some y) :
    Shrinks w (w.setSession s x) := by
  refine ⟨?_, rfl, rfl, rfl, rfl, rfl⟩
  intro r n y hy
  rw [World.setSession_sessions] at hy
  by_cases hr : r = s
  · subst hr
    rw [Function.update_self] at hy
    exact h n y hy
  · rw [Function.update_of_ne hr] at hy
    exact hy

theorem shrinks_tables
    (w : World) (t : Tables) :
    Shrinks w { w with tables := t } :=
  ⟨fun _ _ _ h => h, rfl, rfl, rfl, rfl, rfl⟩

theorem shrinks_clear
    (w : World) (s : SessionId) (attached : Bool) :
    Shrinks w
      (w.setSession s
        { w.sessions s with attached := attached, waiting := fun _ => none }) := by
  apply shrinks_setSession
  intro n y hy
  cases hy

variable (env : Env)

theorem shrinks_created
    (w : World) :
    Shrinks w { w with created := w.created + 1 } :=
  ⟨fun _ _ _ h => h, rfl, rfl, rfl, rfl, rfl⟩

theorem shrinks_sendTo
    (w : World) (s : SessionId) (m : Message) :
    Shrinks w (sendTo w s m) := by
  simp only [sendTo]
  split
  · exact ⟨fun _ _ _ h => h, rfl, rfl, rfl, rfl, rfl⟩
  · exact Shrinks.refl w

theorem shrinks_sendMsg
    (w : World) (s : SessionId) (m : Message) :
    Shrinks w (sendMsg env w s m) := by
  rcases sendMsg_cases env w s m with h | h <;> rw [h]
  · exact shrinks_created w
  · exact (shrinks_created w).trans (shrinks_sendTo _ s m)

theorem shrinks_recvSetAddressReq
    (w : World) (s : SessionId) (req : Option Address) :
    Shrinks w (recvSetAddressReq env w s req) := by
  simp only [recvSetAddressReq]
  split
  · exact shrinks_sendMsg env w s _
  · split
    · exact shrinks_sendMsg env w s _
    · rename_i localAddress _
      exact (shrinks_setSession w s
        { w.sessions s with address := localAddress }
        (fun _ _ hy => hy)).trans (shrinks_sendMsg env _ s _)

theorem shrinks_registerAddress
    {w w' : World} {addr : Address} {s : SessionId} {b : Bool}
    (hregister : registerAddress w addr s = .ok (b, w')) :
    Shrinks w w' := by
  simp only [registerAddress] at hregister
  split at hregister
  · cases hregister
    exact shrinks_tables w _
  · split at hregister
    · cases hregister
    · cases hregister
      exact shrinks_tables w _
    · split at hregister
      · cases hregister
      · cases hregister
        exact shrinks_tables w _
      · rename_i t _
        cases hregister
        exact (shrinks_tables w t).trans
          (shrinks_setSession { w with tables := t } s
            { w.sessions s with address := addr } (fun _ _ hy => hy))

theorem shrinks_onClose
    {w w' : World} {s : SessionId}
    (hclose : onClose w s = .ok w') :
    Shrinks w w' := by
  simp only [onClose] at hclose
  split at hclose
  · split at hclose
    · cases hclose
    · rename_i t _
      cases hclose
      exact (shrinks_tables w t).trans
        (shrinks_clear { w with tables := t } s false)
  · cases hclose
    exact shrinks_clear w s false

theorem shrinks_recvSetAddressAns
    {w w' : World} {s : SessionId} {ans : Option (Int × Address)}
    (hrecv : recvSetAddressAns env w s ans = .ok w') :
    Shrinks w w' := by
  cases ans with
  | none =>
      cases hrecv
      exact Shrinks.refl w
  | some ans =>
      simp only [recvSetAddressAns] at hrecv
      split at hrecv
      · split at hrecv
        · exact shrinks_onClose hrecv
        · cases hrecv
      · split at hrecv
        · cases hrecv
        · rename_i hregister
          split at hrecv
          · cases hrecv
            exact shrinks_registerAddress hregister
          · cases hrecv
            exact (shrinks_registerAddress hregister).trans
              (shrinks_sendMsg env _ s _)

theorem shrinks_recvSetAddressNtf
    {w w' : World} {s : SessionId}
    (hrecv : recvSetAddressNtf w s = .ok w') :
    Shrinks w w' := by
  simp only [recvSetAddressNtf] at hrecv
  split at hrecv
  · cases hrecv
  · rename_i hregister
    cases hrecv
    exact shrinks_registerAddress hregister

theorem shrinks_recvSendMsgNtf
    {w w' : World} {s : SessionId} {ntf : Option (Nat × List UInt8)}
    (hrecv : recvSendMsgNtf env w s ntf = .ok w') :
    Shrinks w w' := by
  obtain ⟨_, _, rfl⟩ := recvSendMsgNtf_eq env hrecv
  exact ⟨fun _ _ _ h => h, rfl, rfl, rfl, rfl, rfl⟩

theorem shrinks_sweep
    (w : World) (r : SessionId) :
    Shrinks w (sweep w r) := by
  apply shrinks_setSession
  intro n y hy
  dsimp only at hy
  split at hy
  · cases hy
  · rename_i x hx
    split at hy
    · cases hy
    · cases hy
      exact hx

end Shrinking

section Invariant

/-- The router session and the call of a reply that found its client. -/
def Event.answered : Event → Option (SessionId × Nat)
  | .address _ _ => none
  | .obtain r _ _ call => some (r, call)

/-- The router session and the number of a reply that found its client. -/
def Event.reply : Event → Option (SessionId × Nat)
  | .address _ _ => none
  | .obtain r msgSeq _ _ => some (r, msgSeq)

/-- No reply to a call has been answered yet. -/
def Unanswered (w : World) (call : Nat) : Prop :=
  ∀ r n c, .obtain r n c call ∉ w.trace

/-- A call of SendMsg on behalf of a client that has not entered its caster:
it has the number under which the call is recorded, nobody has answered it, and
no other call that has not entered its caster is the same. -/
structure Deliverable (w : World) (p : Pending) : Prop where
  recorded : ∀ c, p.client = some c → w.calls[p.call]? = some ⟨c, p.msgSeq⟩
  unanswered : p.client ≠ none → Unanswered w p.call
  distinct : p.client ≠ none → ∀ q ∈ w.pending, q.client ≠ none →
    q.call ≠ p.call

/-- A copy that a call in its caster has still to send: the call has the number under
which it is recorded, it does not wait for its caster any more, and nobody has answered it
on this router session. -/
structure Sendable (w : World) (p : Pending) (s : Pointer) : Prop where
  recorded : ∀ c, p.client = some c → w.calls[p.call]? = some ⟨c, p.msgSeq⟩
  unanswered : p.client ≠ none → ∀ r, s = some r → ∀ n c, .obtain r n c p.call ∉ w.trace
  distinct : p.client ≠ none → ∀ q ∈ w.pending, q.client ≠ none →
    q.call ≠ p.call

/-- The invariant of the numbers: the counter and the recorded calls agree, the
calls that wait for their caster are recorded and different, so are those in their caster,
every entry of a waiting table was made by a recorded call that was addressed to that
router session and was not answered on it, and so was, but for the answer, every entry
that was found. -/
structure Correlated (w : World) : Prop where
  counter : w.msgSeq = (w.calls.length + 1) % 2 ^ 32
  number : ∀ i x, w.calls[i]? = some x → x.msgSeq = (i + 1) % 2 ^ 32
  recorded : ∀ p ∈ w.pending, ∀ c, p.client = some c →
    w.calls[p.call]? = some ⟨c, p.msgSeq⟩
  unanswered : ∀ p ∈ w.pending, p.client ≠ none → Unanswered w p.call
  distinct : w.pending.Pairwise fun p q =>
    p.client ≠ none → q.client ≠ none → p.call ≠ q.call
  casting : ∀ x ∈ w.casting, Sendable w x.1 x.2
  waiting : ∀ r n x, (w.sessions r).waiting n = some x →
    w.calls[x.call]? = some ⟨x.client, n⟩ ∧
      .address x.call r ∈ w.trace ∧
      (∀ m c, .obtain r m c x.call ∉ w.trace) ∧
      ∀ p ∈ w.pending, p.client ≠ none → p.call ≠ x.call
  obtained : ∀ r n c i, .obtain r n c i ∈ w.trace →
    w.calls[i]? = some ⟨c, n⟩
  once : (w.trace.filterMap Event.answered).Nodup

theorem correlated_initial
    (localAddress : Address) :
    Correlated (World.initial localAddress) := by
  refine ⟨rfl, ?_, ?_, ?_, List.Pairwise.nil, ?_, ?_, ?_, List.nodup_nil⟩
  · intro i x hx
    cases hx
  · intro p hp
    cases hp
  · intro p hp
    cases hp
  · intro x hx
    cases hx
  · intro r n x hx
    cases hx
  · intro r n c i hi
    cases hi

theorem Correlated.shrinks
    {w w' : World}
    (h : Correlated w)
    (hshrinks : Shrinks w w') :
    Correlated w' := by
  obtain ⟨hwaiting, hmsgSeq, hcalls, hpending, hcasting, htrace⟩ := hshrinks
  refine ⟨?_, ?_, ?_, ?_, ?_, ?_, ?_, ?_, ?_⟩
  · rw [hmsgSeq, hcalls]
    exact h.counter
  · rw [hcalls]
    exact h.number
  · rw [hcalls, hpending]
    exact h.recorded
  · simp only [Unanswered, hpending, htrace]
    exact h.unanswered
  · rw [hpending]
    exact h.distinct
  · rw [hcasting]
    intro x hx
    obtain ⟨hrecorded, hunanswered, hdistinct⟩ := h.casting x hx
    rw [← hcalls] at hrecorded
    rw [← htrace] at hunanswered
    rw [← hpending] at hdistinct
    exact ⟨hrecorded, hunanswered, hdistinct⟩
  · rw [hcalls, hpending, htrace]
    exact fun r n x hx => h.waiting r n x (hwaiting r n x hx)
  · rw [hcalls, htrace]
    exact h.obtained
  · rw [htrace]
    exact h.once

theorem Deliverable.shrinks
    {w w' : World} {p : Pending}
    (h : Deliverable w p)
    (hshrinks : Shrinks w w') :
    Deliverable w' p := by
  obtain ⟨_, _, hcalls, hpending, _, htrace⟩ := hshrinks
  refine ⟨?_, ?_, ?_⟩
  · rw [hcalls]
    exact h.recorded
  · simp only [Unanswered, htrace]
    exact h.unanswered
  · rw [hpending]
    exact h.distinct

end Invariant

section Calls

/-- The element at a position, and the others. -/
theorem exists_eraseIdx
    {α : Type} {xs : List α} {k : Nat} {x : α}
    (hx : xs[k]? = some x) :
    ∃ u v, xs = u ++ x :: v ∧ xs.eraseIdx k = u ++ v := by
  induction xs generalizing k with
  | nil =>
      cases hx
  | cons y ys ih =>
      cases k with
      | zero =>
          cases hx
          exact ⟨[], ys, rfl, rfl⟩
      | succ k =>
          obtain ⟨u, v, hys, herase⟩ := ih hx
          refine ⟨y :: u, v, ?_, ?_⟩
          · rw [hys, List.cons_append]
          · rw [List.eraseIdx_cons_succ, herase, List.cons_append]

/-- A call that starts to enter its caster. -/
theorem Correlated.enter
    {w : World} {k : Nat} {p : Pending}
    (h : Correlated w)
    (hp : w.pending[k]? = some p) :
    Correlated { w with pending := w.pending.eraseIdx k } ∧
      Deliverable { w with pending := w.pending.eraseIdx k } p := by
  obtain ⟨u, v, hpending, herase⟩ := exists_eraseIdx hp
  have hmem : ∀ q ∈ w.pending.eraseIdx k, q ∈ w.pending := fun q hq =>
    List.mem_of_mem_eraseIdx hq
  have hpmem : p ∈ w.pending := by
    rw [hpending]
    exact List.mem_append_right u List.mem_cons_self
  refine ⟨⟨h.counter, h.number, fun q hq => h.recorded q (hmem q hq),
    fun q hq => h.unanswered q (hmem q hq), ?_, ?_, ?_, h.obtained, h.once⟩,
    h.recorded p hpmem, h.unanswered p hpmem, ?_⟩
  · exact h.distinct.sublist (List.eraseIdx_sublist _ _)
  · intro x hx
    obtain ⟨hrecorded, hunanswered, hdistinct⟩ := h.casting x hx
    exact ⟨hrecorded, hunanswered, fun hclient q hq => hdistinct hclient q (hmem q hq)⟩
  · intro r n x hx
    obtain ⟨hcall, haddress, hunanswered, hpendings⟩ := h.waiting r n x hx
    exact ⟨hcall, haddress, hunanswered, fun q hq => hpendings q (hmem q hq)⟩
  · intro hclient q hq hqclient
    have hq' : q ∈ u ++ v := by
      rw [← herase]
      exact hq
    have hdistinct := h.distinct
    rw [hpending, List.pairwise_append] at hdistinct
    rcases List.mem_append.mp hq' with hqu | hqv
    · exact hdistinct.2.2 q hqu p List.mem_cons_self hqclient hclient
    · have hbehind := (List.pairwise_cons.mp hdistinct.2.1).1 q hqv
      exact Ne.symm (hbehind hclient hqclient)

/-- A call that was recorded stays where it is when another one is recorded. -/
theorem getElem?_record
    {w : World} {i : Nat} {x : Call}
    (hx : w.calls[i]? = some x)
    (call : Call) :
    i < w.calls.length ∧ (w.calls ++ [call])[i]? = some x := by
  have hi := (List.getElem?_eq_some_iff.mp hx).1
  exact ⟨hi, (List.getElem?_append_left hi).trans hx⟩

/-- A call takes the next number. -/
theorem Correlated.record
    {w : World}
    (h : Correlated w)
    (c : ClientId) :
    Correlated { w with
      msgSeq := (w.msgSeq + 1) % 2 ^ 32
      calls := w.calls ++ [{ client := c, msgSeq := w.msgSeq }] } where
  counter := by
    simp only [h.counter, List.length_append, List.length_cons, List.length_nil]
    omega
  number i x hx := by
    simp only at hx
    by_cases hi : i < w.calls.length
    · rw [List.getElem?_append_left hi] at hx
      exact h.number i x hx
    · have hlength := (List.getElem?_eq_some_iff.mp hx).1
      rw [List.length_append, List.length_singleton] at hlength
      have hi' : i = w.calls.length := by
        omega
      subst hi'
      rw [List.getElem?_concat_length] at hx
      cases hx
      exact h.counter
  recorded p hp d hd := (getElem?_record (h.recorded p hp d hd) _).2
  unanswered := h.unanswered
  distinct := h.distinct
  casting x hx := by
    obtain ⟨hrecorded, hunanswered, hdistinct⟩ := h.casting x hx
    exact ⟨fun d hd => (getElem?_record (hrecorded d hd) _).2, hunanswered, hdistinct⟩
  waiting r n x hx := by
    obtain ⟨hcall, hrest⟩ := h.waiting r n x hx
    exact ⟨(getElem?_record hcall _).2, hrest⟩
  obtained r n d i hi := (getElem?_record (h.obtained r n d i hi) _).2
  once := h.once

/-- A call that no entry was made by waits for its caster. -/
theorem Correlated.push
    {w : World}
    (h : Correlated w)
    {p : Pending}
    (hp : Deliverable w p)
    (hnew : p.client ≠ none → ∀ r n x, (w.sessions r).waiting n = some x → p.call ≠ x.call)
    (hcasting : p.client ≠ none → ∀ x ∈ w.casting, x.1.client ≠ none → p.call ≠ x.1.call) :
    Correlated { w with pending := w.pending ++ [p] } where
  counter := h.counter
  number := h.number
  recorded q hq := by
    rcases List.mem_append.mp hq with hq | hq
    · exact h.recorded q hq
    · rw [List.mem_singleton.mp hq]
      exact hp.recorded
  unanswered q hq := by
    rcases List.mem_append.mp hq with hq | hq
    · exact h.unanswered q hq
    · rw [List.mem_singleton.mp hq]
      exact hp.unanswered
  distinct := by
    rw [List.pairwise_append]
    refine ⟨h.distinct, List.pairwise_singleton _ _, ?_⟩
    intro q hq q' hq' hclient hclient'
    rw [List.mem_singleton.mp hq'] at hclient' ⊢
    exact hp.distinct hclient' q hq hclient
  casting x hx := by
    obtain ⟨hrecorded, hunanswered, hdistinct⟩ := h.casting x hx
    refine ⟨hrecorded, hunanswered, ?_⟩
    intro hclient q hq hqclient
    rcases List.mem_append.mp hq with hq | hq
    · exact hdistinct hclient q hq hqclient
    · rw [List.mem_singleton.mp hq] at hqclient ⊢
      exact hcasting hqclient x hx hclient
  waiting r n x hx := by
    obtain ⟨hcall, haddress, hunanswered, hpendings⟩ := h.waiting r n x hx
    refine ⟨hcall, haddress, hunanswered, ?_⟩
    intro q hq hclient
    rcases List.mem_append.mp hq with hq | hq
    · exact hpendings q hq hclient
    · rw [List.mem_singleton.mp hq] at hclient ⊢
      exact hnew hclient r n x hx
  obtained := h.obtained
  once := h.once

/-- A call that starts is recorded if it is made for a client session, and waits for its
caster. -/
theorem Correlated.start
    {w : World}
    (h : Correlated w)
    (client : Option ClientId) (addr : Address) (buf : List UInt8) :
    Correlated (startSendMsg w client addr buf) := by
  cases client with
  | none =>
      refine h.push ⟨?_, fun hclient => absurd rfl hclient, fun hclient => absurd rfl hclient⟩
        (fun hclient => absurd rfl hclient) fun hclient => absurd rfl hclient
      intro c hc
      cases hc
  | some c =>
      refine (h.record c).push ⟨?_, ?_, ?_⟩ ?_ ?_
      · intro d hd
        cases hd
        exact List.getElem?_concat_length
      · intro _ r n d hd
        exact Nat.lt_irrefl _ (getElem?_record (h.obtained r n d _ hd) ⟨c, w.msgSeq⟩).1
      · intro _ q hq hclient
        obtain ⟨d, hd⟩ := Option.ne_none_iff_exists'.mp hclient
        exact Nat.ne_of_lt (getElem?_record (h.recorded q hq d hd) ⟨c, w.msgSeq⟩).1
      · intro _ r n x hx
        have hcall := (h.waiting r n x hx).1
        exact Nat.ne_of_gt (getElem?_record hcall ⟨c, w.msgSeq⟩).1
      · intro _ x hx hclient
        obtain ⟨d, hd⟩ := Option.ne_none_iff_exists'.mp hclient
        have hcall := (h.casting x hx).recorded d hd
        exact Nat.ne_of_gt (getElem?_record hcall ⟨c, w.msgSeq⟩).1

theorem notMem_address
    {w : World} {e : Event} {call : Nat} {r : SessionId}
    (he : e ∉ w.trace)
    (hne : e ≠ .address call r) :
    e ∉ (w.log (.address call r)).trace :=
  List.not_mem_cons_of_ne_of_not_mem hne he

theorem Sendable.address
    {w : World} {p : Pending} {s : Pointer}
    (hp : Sendable w p s)
    (call : Nat) (r : SessionId) :
    Sendable (w.log (.address call r)) p s where
  recorded := hp.recorded
  unanswered hclient q hq n c := notMem_address (hp.unanswered hclient q hq n c) nofun
  distinct := hp.distinct

/-- An address in the trace answers nothing. -/
theorem Correlated.address
    {w : World}
    (h : Correlated w)
    (call : Nat) (r : SessionId) :
    Correlated (w.log (.address call r)) where
  counter := h.counter
  number := h.number
  recorded := h.recorded
  unanswered p hp hclient q n c := notMem_address (h.unanswered p hp hclient q n c) nofun
  distinct := h.distinct
  casting x hx := (h.casting x hx).address call r
  waiting q n x hx := by
    obtain ⟨hcall, haddress, hnone, hpendings⟩ := h.waiting q n x hx
    exact ⟨hcall, List.mem_cons_of_mem _ haddress, fun m d => notMem_address (hnone m d) nofun,
      hpendings⟩
  obtained q n d i hi := by
    rcases List.mem_cons.mp hi with hi | hi
    · cases hi
    · exact h.obtained q n d i hi
  once := h.once

/-- The entry of a call that was addressed to the router session. -/
theorem Correlated.addSession
    {w : World} {p : Pending} {c : ClientId} {r : SessionId}
    (h : Correlated w)
    (hp : Sendable w p (some r))
    (hclient : p.client = some c)
    (haddress : .address p.call r ∈ w.trace) :
    Correlated (addSession w r p.msgSeq c p.call) := by
  have hsome : p.client ≠ none := by
    rw [hclient]
    exact Option.some_ne_none c
  unfold Router.addSession
  split
  · exact h
  · refine ⟨h.counter, h.number, h.recorded, h.unanswered, h.distinct, ?_, ?_, h.obtained,
      h.once⟩
    · intro x hx
      obtain ⟨hrecorded, hunanswered, hdistinct⟩ := h.casting x hx
      exact ⟨hrecorded, hunanswered, hdistinct⟩
    intro q n x hx
    rw [World.setSession_sessions] at hx
    by_cases hq : q = r
    · subst hq
      rw [Function.update_self] at hx
      by_cases hn : n = p.msgSeq
      · subst hn
        simp only [Function.update_self, Option.some.injEq] at hx
        subst hx
        exact ⟨hp.recorded c hclient, haddress, hp.unanswered hsome q rfl, hp.distinct hsome⟩
      · simp only [Function.update_of_ne hn] at hx
        exact h.waiting q n x hx
    · rw [Function.update_of_ne hq] at hx
      exact h.waiting q n x hx

theorem addSession_log
    (w : World) (r : SessionId) (msgSeq : Nat) (c : ClientId) (call : Nat) (e : Event) :
    (addSession w r msgSeq c call).log e = addSession (w.log e) r msgSeq c call := by
  simp only [addSession, World.log]
  split <;> rfl

/-- A call enters the waiting table of one router session that it addresses,
unless its number waits there already. -/
theorem correlated_castTo
    {w : World} {p : Pending} {r : SessionId}
    (h : Correlated w)
    (hp : Sendable w p (some r)) :
    Correlated (castTo w p r) := by
  cases hclient : p.client with
  | none =>
      simp only [castTo, hclient]
      exact h.shrinks (shrinks_sendTo w r (.sendMsgNtf p.msgSeq p.buf))
  | some c =>
      have hadded := (h.address p.call r).addSession (hp.address p.call r) hclient
        List.mem_cons_self
      simp only [castTo, hclient, addSession_log]
      exact hadded.shrinks (shrinks_sendTo
        (addSession (w.log (.address p.call r)) r p.msgSeq c p.call) r
        (.sendMsgNtf p.msgSeq p.buf))

/-- A copy that leaves the list is sent. -/
theorem correlated_castNext
    {w w' : World}
    (h : Correlated w)
    (hnext : castNext w = .ok w') :
    Correlated w' := by
  rcases castNext_cases hnext with rfl | ⟨p, r, rest, hcasting, rfl⟩
  · exact h
  · have hall := h.casting
    rw [hcasting, List.forall_mem_cons] at hall
    obtain ⟨⟨hrecorded, hunanswered, hdistinct⟩, hrest⟩ := hall
    refine correlated_castTo ⟨h.counter, h.number, h.recorded, h.unanswered, h.distinct, ?_,
      h.waiting, h.obtained, h.once⟩ ⟨hrecorded, hunanswered, hdistinct⟩
    intro x hx
    obtain ⟨hrecorded, hunanswered, hdistinct⟩ := hrest x hx
    exact ⟨hrecorded, hunanswered, hdistinct⟩

/-- The copies of a call that nobody has answered. -/
theorem Correlated.addCopies
    {w : World} {p : Pending}
    (h : Correlated w)
    (hp : Deliverable w p)
    (lst : List Pointer) :
    Correlated (w.addCopies p lst) := by
  refine ⟨h.counter, h.number, h.recorded, h.unanswered, h.distinct, ?_, h.waiting, h.obtained,
    h.once⟩
  intro x hx
  rcases List.mem_append.mp hx with hx | hx
  · obtain ⟨hrecorded, hunanswered, hdistinct⟩ := h.casting x hx
    exact ⟨hrecorded, hunanswered, hdistinct⟩
  · obtain ⟨s, _, rfl⟩ := List.mem_map.mp hx
    exact ⟨hp.recorded, fun hclient r _ => hp.unanswered hclient r, hp.distinct⟩

theorem correlated_cast
    {w w' : World} {p : Pending}
    (h : Correlated w)
    (hp : Deliverable w p)
    (hcast : cast w p = .ok w') :
    Correlated w' := by
  have hkept : Correlated w' ∧ Deliverable w' p := by
    refine @cast_rule w w' p (fun w => Correlated w ∧ Deliverable w p) ?_ ?_ ⟨h, hp⟩ hcast
    · rintro w lst ⟨h, hp⟩
      exact ⟨h.addCopies hp lst, hp.recorded, hp.unanswered, hp.distinct⟩
    · rintro w entry ⟨h, hp⟩
      exact ⟨h.shrinks (shrinks_tables w _), hp.shrinks (shrinks_tables w _)⟩
  exact hkept.1

/-- The call that made an entry has no copy left for the router session. -/
def SentAll (w : World) (r : SessionId) (x : Waiting) : Prop :=
  ∀ y ∈ w.casting, y.2 = some r → y.1.client ≠ none → y.1.call ≠ x.call

/-- A reply takes the entry of its number out. -/
theorem Correlated.find
    {w : World} {r : SessionId} {n : Nat}
    (h : Correlated w)
    (hsent : ∀ x, (w.sessions r).waiting n = some x → SentAll w r x) :
    Correlated (findSession w r n) := by
  simp only [findSession]
  split
  · exact h
  · rename_i x hx
    obtain ⟨hcall, haddress, hnone, hpendings⟩ := h.waiting r n x hx
    have hunanswered : ∀ i, i ≠ x.call → Unanswered w i →
        ∀ q m d, .obtain q m d i ∉
          .obtain r n x.client x.call :: w.trace := by
      intro i hi hi' q m d hmem
      rcases List.mem_cons.mp hmem with hmem | hmem
      · cases hmem
        exact hi rfl
      · exact hi' q m d hmem
    refine ⟨h.counter, h.number, h.recorded, ?_, h.distinct, ?_, ?_, ?_, ?_⟩
    · intro p hp hclient
      exact hunanswered _ (hpendings p hp hclient)
        (h.unanswered p hp hclient)
    · intro y hy
      obtain ⟨hrecorded, hnone', hdistinct⟩ := h.casting y hy
      refine ⟨hrecorded, ?_, hdistinct⟩
      intro hclient q hq m d hmem
      rcases List.mem_cons.mp hmem with hmem | hmem
      · simp only [Event.obtain.injEq] at hmem
        obtain ⟨rfl, _, _, hcalls⟩ := hmem
        exact hsent x hx y hy hq hclient hcalls
      · exact hnone' hclient q hq m d hmem
    · intro q m y hy
      have hy' : (w.sessions q).waiting m = some y ∧ ¬ (q = r ∧ m = n) := by
        simp only [World.log, World.setSession_sessions] at hy
        by_cases hq : q = r
        · subst hq
          rw [Function.update_self] at hy
          by_cases hm : m = n
          · subst hm
            simp only [Function.update_self] at hy
            cases hy
          · simp only [Function.update_of_ne hm] at hy
            exact ⟨hy, fun hboth => hm hboth.2⟩
        · rw [Function.update_of_ne hq] at hy
          exact ⟨hy, fun hboth => hq hboth.1⟩
      obtain ⟨hy, hother⟩ := hy'
      obtain ⟨hcall', haddress', hnone', hpendings'⟩ := h.waiting q m y hy
      refine ⟨hcall', List.mem_cons_of_mem _ haddress', ?_, hpendings'⟩
      intro k d hmem
      rcases List.mem_cons.mp hmem with hmem | hmem
      · simp only [Event.obtain.injEq] at hmem
        obtain ⟨hq, _, _, hcalls⟩ := hmem
        rw [hcalls, hcall, Option.some.injEq, Call.mk.injEq] at hcall'
        exact hother ⟨hq, hcall'.2.symm⟩
      · exact hnone' k d hmem
    · intro q m d i hmem
      rcases List.mem_cons.mp hmem with hmem | hmem
      · cases hmem
        exact hcall
      · exact h.obtained q m d i hmem
    · simp only [World.log, World.setSession_trace, List.filterMap_cons,
        Event.answered]
      refine List.nodup_cons.mpr ⟨?_, h.once⟩
      intro hmem
      obtain ⟨e, he, hanswered⟩ := List.mem_filterMap.mp hmem
      cases e with
      | address call q =>
          cases hanswered
      | obtain q m d call =>
          simp only [Event.answered, Option.some.injEq,
            Prod.mk.injEq] at hanswered
          obtain ⟨rfl, rfl⟩ := hanswered
          exact hnone m d he

end Calls

section Runs

variable (env : Env)

/-- A look-up finds no entry of a call that has still a copy to send to the same router
session. -/
def Undivided (w : World) : Step → Prop
  | .findSession k =>
      match w.finding[k]? with
      | none => True
      | some (r, n) => ∀ x, (w.sessions r).waiting n = some x → SentAll w r x
  | _ => True

/-- Every such step keeps the numbers correlated. -/
theorem correlated_step
    {w w' : World} {a : Step}
    (h : Correlated w)
    (hundivided : Undivided w a)
    (hstep : step env w a = .ok w') :
    Correlated w' := by
  cases a with
  | accept s =>
      cases hstep
      exact h.shrinks (shrinks_setSession w s _ (fun _ _ hy => hy))
  | connect s =>
      cases hstep
      have hopen := shrinks_setSession w s
        { w.sessions s with attached := true } (fun _ _ hy => hy)
      exact h.shrinks ((hopen.trans (shrinks_clear _ s _)).trans
        (shrinks_sendMsg env _ s _))
  | setAddressReq s req =>
      cases hstep
      exact h.shrinks (shrinks_recvSetAddressReq env w s req)
  | setAddressAns s ans =>
      exact h.shrinks (shrinks_recvSetAddressAns env hstep)
  | setAddressNtf s =>
      exact h.shrinks (shrinks_recvSetAddressNtf hstep)
  | sendMsgNtf s ntf =>
      exact h.shrinks (shrinks_recvSendMsgNtf env hstep)
  | findSession k =>
      simp only [step] at hstep
      split at hstep
      · cases hstep
        exact h
      · rename_i r n hfinding
        cases hstep
        simp only [Undivided, hfinding] at hundivided
        have herased : Shrinks w
            { w with finding := w.finding.eraseIdx k } :=
          ⟨fun _ _ _ hx => hx, rfl, rfl, rfl, rfl, rfl⟩
        exact (h.shrinks herased).find hundivided
  | close s =>
      simp only [step] at hstep
      split at hstep
      · exact h.shrinks (shrinks_onClose hstep)
      · cases hstep
        exact h
  | startSendMsg client addr buf =>
      cases hstep
      exact h.start client addr buf
  | finishSendMsg k =>
      simp only [step] at hstep
      split at hstep
      · cases hstep
        exact h
      · rename_i p hp
        obtain ⟨h₁, hp₁⟩ := h.enter hp
        have hcreated := shrinks_created { w with pending := w.pending.eraseIdx k }
        rcases finishSendMsg_cases env hstep with rfl | hcast
        · exact h₁.shrinks hcreated
        · exact correlated_cast (h₁.shrinks hcreated) (hp₁.shrinks hcreated) hcast
  | castNext =>
      exact correlated_castNext h hstep
  | sweep r =>
      cases hstep
      exact h.shrinks (shrinks_sweep w r)
  | clear r =>
      cases hstep
      exact h.shrinks (shrinks_clear w r _)
  | tick now =>
      cases hstep
      exact h.shrinks ⟨fun _ _ _ hx => hx, rfl, rfl, rfl, rfl, rfl⟩

/-- A condition on every step of a run, in the state before it. -/
def EveryStep (P : World → Step → Prop) : World → List Step → Prop
  | _, [] => True
  | w, a :: steps =>
      P w a ∧ ∀ w', step env w a = .ok w' → EveryStep P w' steps

theorem everyStep_cons
    {P : World → Step → Prop} {w w' : World} {a : Step} {steps : List Step}
    (hstep : step env w a = .ok w')
    (h : P w a)
    (hsteps : EveryStep env P w' steps) :
    EveryStep env P w (a :: steps) := by
  refine ⟨h, fun w'' hstep' => ?_⟩
  rw [hstep] at hstep'
  cases hstep'
  exact hsteps

theorem exists_run_cons
    {P : World → Prop} {w w' : World} {a : Step} {steps : List Step}
    (hstep : step env w a = .ok w')
    (h : ∃ w'', run env w' steps = .ok w'' ∧ P w'') :
    ∃ w'', run env w (a :: steps) = .ok w'' ∧ P w'' := by
  rw [run, hstep]
  exact h

theorem correlated_run
    {w w' : World} {steps : List Step}
    (h : Correlated w)
    (hsteps : EveryStep env Undivided w steps)
    (hrun : run env w steps = .ok w') :
    Correlated w' := by
  induction steps generalizing w with
  | nil =>
      cases hrun
      exact h
  | cons a steps ih =>
      simp only [run] at hrun
      split at hrun
      · cases hrun
      · rename_i w₁ hstep
        exact ih (correlated_step env h hsteps.1 hstep) (hsteps.2 w₁ hstep) hrun

/-- Fewer than 2^32 numbers were taken behind that of any entry that waits. -/
def InWindow (w : World) : Prop :=
  ∀ r n x, (w.sessions r).waiting n = some x →
    w.calls.length - (x.call + 1) < 2 ^ 32

/-- A property of every state of a run. -/
def EveryState (P : World → Prop) : World → List Step → Prop
  | w, [] => P w
  | w, a :: steps =>
      P w ∧ ∀ w', step env w a = .ok w' → EveryState P w' steps

/-- The client session that a step obtains for a reply, with the router session
and the number of the reply. -/
def Step.obtains (w : World) : Step → Option (SessionId × Nat × ClientId)
  | .findSession k =>
      match w.finding[k]? with
      | none => none
      | some (r, n) =>
          ((w.sessions r).waiting n).map fun x => (r, n, x.client)
  | _ => none

/-- A property of every reply of a run that obtains a client session. -/
def EveryReply (P : World → SessionId → Nat → ClientId → Prop) :
    World → List Step → Prop
  | _, [] => True
  | w, a :: steps =>
      (∀ r n c, a.obtains w = some (r, n, c) → P w r n c) ∧
        ∀ w', step env w a = .ok w' → EveryReply P w' steps

/-- The last SendMsg call that took number n was made for client session c, it
was addressed to router session r, and it was not answered there before. -/
def CalledBy (w : World) (r : SessionId) (n : Nat) (c : ClientId) : Prop :=
  ∃ i, w.calls[i]? = some ⟨c, n⟩ ∧ .address i r ∈ w.trace ∧
    (∀ j x, w.calls[j]? = some x → x.msgSeq = n → j ≤ i) ∧
    ∀ m d, .obtain r m d i ∉ w.trace

/-- No call is answered twice on one router session, nor is a number as long as
the numbers have not come around. -/
structure AtMostOnce (w : World) : Prop where
  calls : (w.trace.filterMap Event.answered).Nodup
  numbers : w.calls.length ≤ 2 ^ 32 →
    (w.trace.filterMap Event.reply).Nodup

/-- An entry that is found was made by the last call with its number. -/
theorem calledBy_of_waiting
    {w : World}
    (h : Correlated w)
    (hwindow : InWindow w)
    {r : SessionId} {n : Nat} {x : Waiting}
    (hx : (w.sessions r).waiting n = some x) :
    CalledBy w r n x.client := by
  obtain ⟨hcall, haddress, hnone, _⟩ := h.waiting r n x hx
  refine ⟨x.call, hcall, haddress, ?_, hnone⟩
  intro j y hy hn
  have hj := h.number j y hy
  have hi : n = (x.call + 1) % 2 ^ 32 := h.number _ _ hcall
  have hlength := (List.getElem?_eq_some_iff.mp hy).1
  have hlate := hwindow r n x hx
  -- the same number again is a whole turn of the counter away
  rw [hn, hi] at hj
  omega

/-- The number of an answered reply is that of its call. -/
theorem reply_eq_map_answered
    {calls : List Call} {trace : List Event}
    (hnumber : ∀ i x, calls[i]? = some x → x.msgSeq = (i + 1) % 2 ^ 32)
    (hobtained : ∀ r n c i, .obtain r n c i ∈ trace →
      calls[i]? = some ⟨c, n⟩) :
    trace.filterMap Event.reply =
      (trace.filterMap Event.answered).map fun e =>
        (e.1, (e.2 + 1) % 2 ^ 32) := by
  induction trace with
  | nil =>
      rfl
  | cons e trace ih =>
      have htail := ih fun r n c i hi =>
        hobtained r n c i (List.mem_cons_of_mem e hi)
      cases e with
      | address call r =>
          exact htail
      | obtain r n c i =>
          have hcall := hobtained r n c i List.mem_cons_self
          have hn : n = (i + 1) % 2 ^ 32 := hnumber i _ hcall
          simp only [List.filterMap_cons, Event.reply, Event.answered,
            List.map_cons, htail, hn]

theorem Correlated.atMostOnce
    {w : World}
    (h : Correlated w) :
    AtMostOnce w := by
  refine ⟨h.once, ?_⟩
  intro hlength
  rw [reply_eq_map_answered h.number h.obtained]
  refine List.Nodup.map_on ?_ h.once
  have hcalls : ∀ e ∈ w.trace.filterMap Event.answered,
      e.2 < w.calls.length := by
    intro e he
    obtain ⟨f, hf, hanswered⟩ := List.mem_filterMap.mp he
    cases f with
    | address call r =>
        cases hanswered
    | obtain r n c i =>
        cases hanswered
        exact (List.getElem?_eq_some_iff.mp (h.obtained r n c i hf)).1
  rintro ⟨r, i⟩ hi ⟨q, j⟩ hj heq
  have hi' := hcalls _ hi
  have hj' := hcalls _ hj
  simp only [Prod.mk.injEq] at heq hi' hj' ⊢
  obtain ⟨hr, hmod⟩ := heq
  exact ⟨hr, by omega⟩

theorem everyReply_of_correlated
    {w : World} {steps : List Step}
    (h : Correlated w)
    (hwindow : EveryState env InWindow w steps)
    (hsteps : EveryStep env Undivided w steps) :
    EveryReply env CalledBy w steps := by
  induction steps generalizing w with
  | nil =>
      exact True.intro
  | cons a steps ih =>
      refine ⟨?_, ?_⟩
      · intro r n c hobtains
        cases a with
        | findSession k =>
            simp only [Step.obtains] at hobtains
            split at hobtains
            · cases hobtains
            · rename_i r' n' _
              obtain ⟨x, hx, hfound⟩ := Option.map_eq_some_iff.mp hobtains
              cases hfound
              exact calledBy_of_waiting h hwindow.1 hx
        | _ =>
            cases hobtains
      · intro w' hstep
        exact ih (correlated_step env h hsteps.1 hstep) (hwindow.2 w' hstep) (hsteps.2 w' hstep)

/-- The numbers that were taken are the same. -/
def SameNumbers (w w' : World) : Prop :=
  w'.msgSeq = w.msgSeq ∧ w'.calls = w.calls

theorem Shrinks.sameNumbers
    {w w' : World}
    (h : Shrinks w w') :
    SameNumbers w w' :=
  ⟨h.msgSeq, h.calls⟩

theorem castTo_sameNumbers
    (w : World) (p : Pending) (r : SessionId) :
    SameNumbers w (castTo w p r) := by
  simp only [SameNumbers, castTo]
  rw [(shrinks_sendTo _ r _).msgSeq, (shrinks_sendTo _ r _).calls]
  split
  · exact ⟨rfl, rfl⟩
  · simp only [addSession, World.log]
    split
    · exact ⟨rfl, rfl⟩
    · exact ⟨rfl, rfl⟩

theorem castNext_sameNumbers
    {w w' : World}
    (hnext : castNext w = .ok w') :
    SameNumbers w w' := by
  rcases castNext_cases hnext with rfl | ⟨p, r, rest, _, rfl⟩
  · exact ⟨rfl, rfl⟩
  · exact castTo_sameNumbers { w with casting := rest } p r

theorem finishSendMsg_sameNumbers
    {w w' : World} {p : Pending}
    (hfinish : finishSendMsg env w p = .ok w') :
    SameNumbers w w' := by
  rcases finishSendMsg_cases env hfinish with rfl | hcast
  · exact ⟨rfl, rfl⟩
  · exact @cast_rule { w with created := w.created + 1 } w' p (SameNumbers w)
      (fun _ _ h => h) (fun _ _ h => h) ⟨rfl, rfl⟩ hcast

/-- Only the start of a SendMsg call takes a number. -/
theorem step_numbers
    {w w' : World} {a : Step}
    (hstep : step env w a = .ok w') :
    SameNumbers w w' ∨
      w'.msgSeq = (w.msgSeq + 1) % 2 ^ 32 ∧ ∃ call, w'.calls = w.calls ++ [call] := by
  cases a with
  | accept s =>
      cases hstep
      exact .inl ⟨rfl, rfl⟩
  | connect s =>
      cases hstep
      exact .inl (shrinks_sendMsg env _ s _).sameNumbers
  | setAddressReq s req =>
      cases hstep
      exact .inl (shrinks_recvSetAddressReq env w s req).sameNumbers
  | setAddressAns s ans =>
      exact .inl (shrinks_recvSetAddressAns env hstep).sameNumbers
  | setAddressNtf s =>
      exact .inl (shrinks_recvSetAddressNtf hstep).sameNumbers
  | sendMsgNtf s ntf =>
      exact .inl (shrinks_recvSendMsgNtf env hstep).sameNumbers
  | findSession k =>
      simp only [step] at hstep
      split at hstep
      · cases hstep
        exact .inl ⟨rfl, rfl⟩
      · cases hstep
        simp only [findSession]
        split
        · exact .inl ⟨rfl, rfl⟩
        · exact .inl ⟨rfl, rfl⟩
  | close s =>
      simp only [step] at hstep
      split at hstep
      · exact .inl (shrinks_onClose hstep).sameNumbers
      · cases hstep
        exact .inl ⟨rfl, rfl⟩
  | startSendMsg client addr buf =>
      cases hstep
      cases client with
      | none =>
          exact .inl ⟨rfl, rfl⟩
      | some c =>
          exact .inr ⟨rfl, _, rfl⟩
  | finishSendMsg k =>
      simp only [step] at hstep
      split at hstep
      · cases hstep
        exact .inl ⟨rfl, rfl⟩
      · have hsame : SameNumbers { w with pending := w.pending.eraseIdx k } w' :=
          finishSendMsg_sameNumbers env hstep
        exact .inl hsame
  | castNext =>
      exact .inl (castNext_sameNumbers hstep)
  | sweep r =>
      cases hstep
      exact .inl ⟨rfl, rfl⟩
  | clear r =>
      cases hstep
      exact .inl ⟨rfl, rfl⟩
  | tick now =>
      cases hstep
      exact .inl ⟨rfl, rfl⟩

theorem step_calls_le
    {w w' : World} {a : Step}
    (hstep : step env w a = .ok w') :
    w'.calls.length ≤ w.calls.length + 1 := by
  rcases step_numbers env hstep with ⟨_, hcalls⟩ | ⟨_, call, hcalls⟩ <;> rw [hcalls]
  · exact Nat.le_succ _
  · rw [List.length_append, List.length_singleton]

/-- The counter has 32 bits. -/
theorem run_msgSeq_lt
    {w w' : World} {steps : List Step}
    (h : w.msgSeq < 2 ^ 32)
    (hrun : run env w steps = .ok w') :
    w'.msgSeq < 2 ^ 32 := by
  induction steps generalizing w with
  | nil =>
      cases hrun
      exact h
  | cons a steps ih =>
      simp only [run] at hrun
      split at hrun
      · cases hrun
      · rename_i w₁ hstep
        refine ih ?_ hrun
        rcases step_numbers env hstep with ⟨hmsgSeq, _⟩ | ⟨hmsgSeq, _⟩ <;> rw [hmsgSeq]
        · exact h
        · exact Nat.mod_lt _ (by decide)

/-- A run of fewer than 2^32 steps stays in the window. -/
theorem everyState_inWindow_of_length
    {w : World} {steps : List Step}
    (hlength : w.calls.length + steps.length < 2 ^ 32) :
    EveryState env InWindow w steps := by
  have hstart : InWindow w := by
    intro r n x _
    omega
  induction steps generalizing w with
  | nil =>
      exact hstart
  | cons a steps ih =>
      refine ⟨hstart, ?_⟩
      intro w' hstep
      have hcalls := step_calls_le env hstep
      rw [List.length_cons] at hlength
      have hlength' : w'.calls.length + steps.length < 2 ^ 32 := by
        omega
      refine ih hlength' ?_
      intro r n x _
      omega

/-- Correlation of replies: in every run in which fewer than 2^32 numbers are
taken while an entry waits, and no look-up comes between two copies of its call
to one router session, a reply with number n on router session r obtains the
client session of the last SendMsg call that took n, that call was addressed to
r, and nothing was obtained for it on r before. -/
theorem replies_correlated
    (localAddress : Address) (steps : List Step)
    (hwindow : EveryState env InWindow (World.initial localAddress) steps)
    (hsteps : EveryStep env Undivided (World.initial localAddress) steps) :
    EveryReply env CalledBy (World.initial localAddress) steps ∧
      ∀ w, run env (World.initial localAddress) steps = .ok w →
        AtMostOnce w :=
  ⟨everyReply_of_correlated env (correlated_initial localAddress) hwindow hsteps,
    fun _ hrun =>
      (correlated_run env (correlated_initial localAddress) hsteps hrun).atMostOnce⟩

/-- A server to which a client session sends a message. -/
def replyingServer (id : Nat) : Address :=
  { serviceName := [103], castType := Address.uniCast, id := id, msgSeq := 0 }

/-- All servers of the service. -/
def replyingServers : Address :=
  { serviceName := [103], castType := Address.multiCast, id := 0, msgSeq := 0 }

/-- A reply with number 1. -/
def firstReply (s : SessionId) : Step :=
  .sendMsgNtf s (some (1, [10, 0, 0, 0, 0, 0, 9, 0, 0, 0]))

/-- Two servers register, client session 7 sends a message to both, and each replies twice. -/
def answeredTwice : List Step :=
  [.accept 0, .setAddressAns 0 (some (0, replyingServer 1)),
    .accept 1, .setAddressAns 1 (some (0, replyingServer 2)),
    .startSendMsg (some 7) replyingServers [], .finishSendMsg 0, .castNext, .castNext,
    firstReply 0, firstReply 0, firstReply 1, firstReply 1,
    .findSession 0, .findSession 1, .findSession 0, .findSession 0]

/-- A router whose application finds the handlers of replies in the client
session. -/
def Env.finding : Env where
  pool := fun _ => some Tcp.freshStorage
  factory := fun _ => some .find

/-- A reply on a link to a registered server is looked up. -/
theorem recvSendMsgNtf_finding
    {w : World} {s r : SessionId} {msgSeq : Nat} {buffer : List UInt8}
    {data : Tcp.Packet.Storage}
    (hroute : w.tables.uni (w.sessions s).address.key = some r)
    (hcast : (w.sessions s).address.castType = Address.uniCast)
    (hdata : env.pool w.created = some data)
    (hfits : buffer.length ≤ Buffer.maxSize)
    (hfind : ∀ msgId, env.factory msgId = some .find) :
    recvSendMsgNtf env w s (some (msgSeq, buffer)) =
      .ok { w with
        created := w.created + 1
        finding := w.finding ++ [(r, msgSeq % 2 ^ 32)] } := by
  obtain ⟨packet, happend, _⟩ := @Tcp.Packet.append_spec (Tcp.Packet.ofStorage data) buffer
    (by rw [Tcp.Packet.ofStorage_size, Nat.zero_add]; exact hfits)
  have hkey : ({ (w.sessions s).address with msgSeq := msgSeq % 2 ^ 32 } : Address).key =
      (w.sessions s).address.key := rfl
  simp only [recvSendMsgNtf, hroute, createPacket, hdata, happend, dispatch, hfind]
  rw [if_pos ⟨hcast, trivial⟩, hkey, hroute]

theorem step_firstReply
    {w : World} {s r : SessionId}
    (hroute : w.tables.uni (w.sessions s).address.key = some r)
    (hcast : (w.sessions s).address.castType = Address.uniCast) :
    step Env.finding w (firstReply s) =
      .ok { w with created := w.created + 1, finding := w.finding ++ [(r, 1)] } := by
  have hdata : Env.finding.pool w.created = some Tcp.freshStorage := rfl
  rw [firstReply, step]
  exact recvSendMsgNtf_finding Env.finding hroute hcast hdata (by decide) fun _ => rfl

theorem replies_correlated_answeredTwice :
    EveryReply Env.finding CalledBy (World.initial Address.default)
        answeredTwice ∧
      ∀ w, run Env.finding (World.initial Address.default) answeredTwice =
        .ok w → AtMostOnce w := by
  refine replies_correlated Env.finding Address.default answeredTwice
    (everyState_inWindow_of_length Env.finding (by decide)) ?_
  iterate 8 refine everyStep_cons Env.finding rfl trivial ?_
  iterate 4 refine everyStep_cons Env.finding (step_firstReply rfl rfl) trivial ?_
  iterate 4 refine everyStep_cons Env.finding rfl (fun _ _ _ hy => nomatch hy) ?_
  exact trivial

/-- One server registers twice, a look-up for number 1 is pending, and client session 7
sends a message to the service. The look-up comes between the two copies. -/
def registeredTwice : List Step :=
  [.accept 0, .setAddressAns 0 (some (0, replyingServer 1)),
    .setAddressAns 0 (some (0, replyingServer 2)), firstReply 0,
    .startSendMsg (some 7) replyingServers [], .finishSendMsg 0,
    .castNext, .findSession 0, .castNext, firstReply 0, .findSession 0]

/-- The entry of the second copy is obtained as well. -/
theorem registeredTwice_obtains_twice :
    EveryState Env.finding InWindow (World.initial Address.default) registeredTwice ∧
      ∃ w, run Env.finding (World.initial Address.default) registeredTwice = .ok w ∧
        w.trace.filterMap Event.reply = [(0, 1), (0, 1)] ∧ ¬ AtMostOnce w := by
  refine ⟨everyState_inWindow_of_length Env.finding (by decide), ?_⟩
  iterate 3 refine exists_run_cons Env.finding rfl ?_
  refine exists_run_cons Env.finding (step_firstReply rfl rfl) ?_
  iterate 5 refine exists_run_cons Env.finding rfl ?_
  refine exists_run_cons Env.finding (step_firstReply rfl rfl) ?_
  refine exists_run_cons Env.finding rfl ⟨_, rfl, rfl, fun h => ?_⟩
  exact absurd h.calls (by decide)

end Runs

end Router
end Gamnet
