import Gamnet.Tcp.Attachment

/-!
# Who can take a session over

The history of a run records the tokens that are issued for a session, the
tokens with which a Reconnect_Req is accepted, and where the closures that wait
on the strands come from. When no token is issued twice, the token of a
registered session is the last one that was issued for it, and none of those
with which a request was accepted (`Current`).
-/

namespace Gamnet
namespace Tcp

section Histories

variable {A : Type} (env : Env A)

/-- The tokens issued for the sessions, and those with which they were taken over, the
latest ones first; and for every closure that waits on the strand of a link the session
whose rejected Reconnect_Req queued it, if one did. -/
structure History where
  issued : List (SessionId × String)
  accepted : List (SessionId × String)
  waiting : LinkId → List (Option SessionId)

namespace History

def empty : History where
  issued := []
  accepted := []
  waiting := fun _ => []

/-- GenerateSessionToken for session s. -/
def issue (h : History) (s : SessionId) (token : String) : History :=
  { h with issued := (s, token) :: h.issued }

/-- A Reconnect_Req with the token takes session s over. -/
def accept (h : History) (s : SessionId) (token : String) : History :=
  { h with accepted := (s, token) :: h.accepted }

/-- The closures that a step queued behind the others wait for the same cause. -/
def queue (h : History) (w w' : World A) (cause : Option SessionId) : History :=
  { h with
    waiting := fun l => h.waiting l ++
      List.replicate ((w'.links l).closures.length - (w.links l).closures.length) cause }

/-- The closure at the front of a strand runs. -/
def unqueue (h : History) (l : LinkId) : History :=
  { h with waiting := Function.update h.waiting l (h.waiting l).tail }

/-- The token that was last issued for session s. -/
def lastIssued (h : History) (s : SessionId) : Option String :=
  (h.issued.find? fun r => r.1 = s).map Prod.snd

theorem lastIssued_issue
    (h : History) (s : SessionId) (token : String) :
    (h.issue s token).lastIssued s = some token := by
  simp [issue, lastIssued]

theorem lastIssued_issue_of_ne
    (h : History) {s t : SessionId} (token : String)
    (hne : t ≠ s) :
    (h.issue s token).lastIssued t = h.lastIssued t := by
  simp [issue, lastIssued, Ne.symm hne]

end History

/-- The token that is issued next for session s. -/
def nextToken (w : World A) (s : SessionId) : String :=
  env.token w.tokens (w.sessions s).sessionKey

/-- What a frame adds to the history. -/
def Demand.record (w : World A) (s : SessionId) (h : History) : Demand → History
  | .nothing => h
  | .connect => h.issue s (nextToken env w s)
  | .takeOver _ other =>
      (h.issue other (nextToken env w other)).accept other (w.sessions other).sessionToken

/-- The session itself, when the frame at the front of its packet is a Reconnect_Req that
takes no session over. -/
def rejectedBy (w : World A) (s : SessionId) : Option SessionId :=
  match passes env w s (w.recvPacket s), env.handlers (w.recvPacket s).getID, demand env w s with
  | _, _, .takeOver _ _ => none
  | true, some .reconnectReq, _ => some s
  | _, _, _ => none

/-- One step with its history. -/
def recordStep (r : Manager A × History) (a : Manager.Step) : Manager A × History :=
  match a with
  | .act (.deliver _ s) =>
      (r.1.step env a, ((demand env r.1.world s).record env r.1.world s r.2).queue r.1.world
        (r.1.step env a).world (rejectedBy env r.1.world s))
  | .act (.closure l) => (r.1.step env a, r.2.unqueue l)
  | _ => (r.1.step env a, r.2.queue r.1.world (r.1.step env a).world none)

/-- A run with its history. -/
def recordRun (m : Manager A) (steps : List Manager.Step) : Manager A × History :=
  steps.foldl (recordStep env) (m, History.empty)

theorem recordStep_fst
    (r : Manager A × History) (a : Manager.Step) :
    (recordStep env r a).1 = r.1.step env a := by
  simp only [recordStep]
  split
  · rfl
  · rfl
  · rfl

/-- The run is the same without the history. -/
theorem recordRun_fst
    (m : Manager A) (steps : List Manager.Step) :
    (recordRun env m steps).1 = m.run env steps := by
  have hfold : ∀ r : Manager A × History,
      (steps.foldl (recordStep env) r).1 = steps.foldl (Manager.step env) r.1 := by
    induction steps with
    | nil =>
        intro r
        rfl
    | cons a steps ih =>
        intro r
        rw [List.foldl_cons, List.foldl_cons, ih, recordStep_fst]
  exact hfold (m, History.empty)

end Histories

section CurrentTokens

variable {A : Type} (env : Env A)

/-- Session s is in the map of the sessions. -/
def InRegistry (w : World A) (s : SessionId) : Prop :=
  ∃ k, w.registry k = some s

/-- The token was issued before. -/
def WasIssued (w : World A) (token : String) : Prop :=
  ∃ n k, n < w.tokens ∧ token = env.token n k

/-- The tokens of the registered sessions and the history of a run. -/
structure Current (h : History) (w : World A) : Prop where
  last : ∀ s, InRegistry w s → h.lastIssued s = some (w.sessions s).sessionToken
  issued : ∀ s, InRegistry w s → WasIssued env w (w.sessions s).sessionToken
  distinct : ∀ s t, InRegistry w s → InRegistry w t → s ≠ t →
    (w.sessions s).sessionToken ≠ (w.sessions t).sessionToken
  accepted : ∀ r ∈ h.accepted, WasIssued env w r.2 ∧
    ∀ s, InRegistry w s → (w.sessions s).sessionToken ≠ r.2
  nodup : (h.accepted.map Prod.snd).Nodup

variable {h : History} {w w' : World A}

theorem current_initial
    (app : A) :
    Current env History.empty (World.initial app) := by
  refine ⟨?_, ?_, ?_, ?_, List.nodup_nil⟩
  · rintro s ⟨k, hk⟩
    cases hk
  · rintro s ⟨k, hk⟩
    cases hk
  · rintro s t ⟨k, hk⟩
    cases hk
  · intro r hr
    cases hr

variable {env}

theorem Current.queue
    (hcurrent : Current env h w)
    (w₀ w₁ : World A) (cause : Option SessionId) :
    Current env (h.queue w₀ w₁ cause) w :=
  ⟨hcurrent.last, hcurrent.issued, hcurrent.distinct, hcurrent.accepted, hcurrent.nodup⟩

theorem Current.unqueue
    (hcurrent : Current env h w)
    (l : LinkId) :
    Current env (h.unqueue l) w :=
  ⟨hcurrent.last, hcurrent.issued, hcurrent.distinct, hcurrent.accepted, hcurrent.nodup⟩

/-- Nothing is registered, and the registered sessions keep their tokens. -/
theorem Current.mono
    (hcurrent : Current env h w)
    (hregistry : ∀ s, InRegistry w' s → InRegistry w s)
    (htokens : w'.tokens = w.tokens)
    (htoken : ∀ s, InRegistry w' s →
      (w'.sessions s).sessionToken = (w.sessions s).sessionToken) :
    Current env h w' := by
  have hissued : ∀ token, WasIssued env w token → WasIssued env w' token := by
    rintro token ⟨n, k, hn, rfl⟩
    exact ⟨n, k, by rw [htokens]; exact hn, rfl⟩
  refine ⟨?_, ?_, ?_, ?_, hcurrent.nodup⟩
  · intro s hs
    rw [htoken s hs]
    exact hcurrent.last s (hregistry s hs)
  · intro s hs
    rw [htoken s hs]
    exact hissued _ (hcurrent.issued s (hregistry s hs))
  · intro s t hs ht
    rw [htoken s hs, htoken t ht]
    exact hcurrent.distinct s t (hregistry s hs) (hregistry t ht)
  · intro r hr
    refine ⟨hissued _ (hcurrent.accepted r hr).1, ?_⟩
    intro s hs
    rw [htoken s hs]
    exact (hcurrent.accepted r hr).2 s (hregistry s hs)

theorem Current.still
    (hcurrent : Current env h w)
    (hstill : Still w w') :
    Current env h w' := by
  refine hcurrent.mono ?_ hstill.tokens (fun s _ => hstill.sessionToken s)
  rintro s ⟨k, hk⟩
  exact ⟨k, by rw [← hstill.registry]; exact hk⟩

theorem Current.same
    (hcurrent : Current env h w)
    (hsame : SameSessions w w') :
    Current env h w' := by
  refine hcurrent.mono ?_ hsame.tokens (fun s _ => hsame.sessionToken s)
  rintro s ⟨k, hk⟩
  exact ⟨k, by rw [← hsame.registry]; exact hk⟩

theorem Current.loosens
    {cur : LinkId}
    (hcurrent : Current env h w)
    (hloosens : Loosens cur w w') :
    Current env h w' :=
  hloosens.rule (fun _ _ hstill h => Current.still h hstill)
    (fun w l _ h => Current.same h (sameSessions_attachSession cur w l none)) hcurrent

/-- Session s gets a token that was never issued before. -/
theorem Current.issue
    {s : SessionId} {k : Nat}
    (hdistinct : ∀ n k n' k', env.token n k = env.token n' k' → n = n')
    (hcurrent : Current env h w)
    (hregistry : ∀ t, t ≠ s → InRegistry w' t → InRegistry w t)
    (htokens : w'.tokens = w.tokens + 1)
    (htoken : (w'.sessions s).sessionToken = env.token w.tokens k)
    (hothers : ∀ t, t ≠ s → (w'.sessions t).sessionToken = (w.sessions t).sessionToken) :
    Current env (h.issue s (env.token w.tokens k)) w' := by
  have hissued : ∀ token, WasIssued env w token → WasIssued env w' token := by
    rintro token ⟨n, k, hn, rfl⟩
    exact ⟨n, k, by rw [htokens]; exact Nat.lt_succ_of_lt hn, rfl⟩
  have hfresh : ∀ token, WasIssued env w token → env.token w.tokens k ≠ token := by
    rintro token ⟨n, k', hn, rfl⟩ heq
    have hsame := hdistinct _ _ _ _ heq
    omega
  refine ⟨?_, ?_, ?_, ?_, hcurrent.nodup⟩
  · intro t ht
    by_cases hts : t = s
    · rw [hts, History.lastIssued_issue, htoken]
    · rw [History.lastIssued_issue_of_ne _ _ hts, hothers t hts]
      exact hcurrent.last t (hregistry t hts ht)
  · intro t ht
    by_cases hts : t = s
    · rw [hts, htoken]
      exact ⟨w.tokens, k, by rw [htokens]; exact Nat.lt_succ_self _, rfl⟩
    · rw [hothers t hts]
      exact hissued _ (hcurrent.issued t (hregistry t hts ht))
  · intro t u ht hu hne
    by_cases hts : t = s
    · subst hts
      rw [htoken, hothers u (Ne.symm hne)]
      exact hfresh _ (hcurrent.issued u (hregistry u (Ne.symm hne) hu))
    · by_cases hus : u = s
      · subst hus
        rw [htoken, hothers t hts]
        exact (hfresh _ (hcurrent.issued t (hregistry t hts ht))).symm
      · rw [hothers t hts, hothers u hus]
        exact hcurrent.distinct t u (hregistry t hts ht) (hregistry u hus hu) hne
  · intro r hr
    obtain ⟨hwas, hnot⟩ := hcurrent.accepted r hr
    refine ⟨hissued _ hwas, ?_⟩
    intro t ht
    by_cases hts : t = s
    · rw [hts, htoken]
      exact hfresh _ hwas
    · rw [hothers t hts]
      exact hnot t (hregistry t hts ht)

/-- A token that no registered session has any more was accepted. -/
theorem Current.accept
    {s : SessionId} {token : String}
    (hcurrent : Current env h w)
    (hissued : WasIssued env w token)
    (hnew : ∀ r ∈ h.accepted, r.2 ≠ token)
    (hgone : ∀ t, InRegistry w t → (w.sessions t).sessionToken ≠ token) :
    Current env (h.accept s token) w := by
  refine ⟨hcurrent.last, hcurrent.issued, hcurrent.distinct, ?_, ?_⟩
  · intro r hr
    rcases List.mem_cons.mp hr with rfl | hr
    · exact ⟨hissued, hgone⟩
    · exact hcurrent.accepted r hr
  · simp only [History.accept, List.map_cons, List.nodup_cons]
    refine ⟨?_, hcurrent.nodup⟩
    rw [List.mem_map]
    rintro ⟨r, hr, heq⟩
    exact hnew r hr heq

variable (env)

/-- What Recv_Reconnect_Req changes of the tokens and of the map of the sessions. -/
theorem tokens_acceptReconnect
    (cur : LinkId) (w : World A) (s : SessionId) (l : LinkId) (other : SessionId) :
    (acceptReconnect env cur w s l other).registry = w.registry ∧
      (acceptReconnect env cur w s l other).tokens = w.tokens + 1 ∧
      ((acceptReconnect env cur w s l other).sessions other).sessionToken =
        nextToken env w other ∧
      ∀ t, t ≠ other →
        ((acceptReconnect env cur w s l other).sessions t).sessionToken =
          (w.sessions t).sessionToken := by
  have hleave : SameSessions w (leaveLink cur w other) := by
    simp only [leaveLink]
    split
    · exact SameSessions.refl w
    · exact sameSessions_attachSession cur w _ none
  have hgive := still_giveRecvPacket (leaveLink cur w other) other
    ((leaveLink cur w other).sessions s).recvPacket
  have hattach := sameSessions_attachSession cur (handOver env cur w s other) l (some other)
  have hanswer := still_acceptReconnect env cur w s l other
  have hold : ∀ t, (((leaveLink cur w other).setSession other
      { (leaveLink cur w other).sessions other with
        recvPacket := ((leaveLink cur w other).sessions s).recvPacket }).sessions t).sessionToken =
        (w.sessions t).sessionToken :=
    fun t => (hgive.sessionToken t).trans (hleave.sessionToken t)
  refine ⟨?_, ?_, ?_, ?_⟩
  · exact (hanswer.registry.trans hattach.registry).trans (hgive.registry.trans hleave.registry)
  · rw [hanswer.tokens, hattach.tokens]
    show ((leaveLink cur w other).setSession other _).tokens + 1 = w.tokens + 1
    rw [hgive.tokens, hleave.tokens]
  · rw [hanswer.sessionToken, hattach.sessionToken]
    simp only [handOver, renewToken, World.setSession_sessions, Function.update_self, nextToken]
    rw [hleave.sessionKey, ← hleave.tokens]
    rfl
  · intro t ht
    rw [hanswer.sessionToken, hattach.sessionToken, ← hold t]
    simp only [handOver, renewToken, World.setSession_sessions, Function.update_of_ne ht]

theorem nextToken_still
    (hstill : Still w w')
    (s : SessionId) :
    nextToken env w' s = nextToken env w s := by
  simp only [nextToken, hstill.tokens, hstill.sessionKey]

variable {env}

theorem Current.connect
    {s : SessionId}
    (hdistinct : ∀ n k n' k', env.token n k = env.token n' k' → n = n')
    (hcurrent : Current env h w) :
    Current env (h.issue s (nextToken env w s)) (registerSession env w s) := by
  refine hcurrent.issue hdistinct ?_ (counters_registerSession env w s).2
    (sessionToken_registerSession env w s) ?_
  · rintro t ht ⟨k, hk⟩
    rw [registry_registerSession] at hk
    by_cases hkey : k = (w.sessions s).sessionKey
    · rw [hkey, Function.update_self] at hk
      cases hfound : w.registry (w.sessions s).sessionKey with
      | none =>
          rw [hfound, Option.getD_none] at hk
          exact absurd (Option.some.inj hk).symm ht
      | some other =>
          rw [hfound, Option.getD_some] at hk
          cases hk
          exact ⟨_, hfound⟩
    · rw [Function.update_of_ne hkey] at hk
      exact ⟨k, hk⟩
  · intro t ht
    rw [sessions_registerSession env w ht]

/-- The token of the request is spent, and a new one is issued. -/
theorem Current.takeOver
    {cur l : LinkId} {s other : SessionId}
    (hdistinct : ∀ n k n' k', env.token n k = env.token n' k' → n = n')
    (hcurrent : Current env h w)
    (hother : InRegistry w other) :
    Current env
      ((h.issue other (nextToken env w other)).accept other (w.sessions other).sessionToken)
      (acceptReconnect env cur w s l other) := by
  obtain ⟨hregistry, htokens, htoken, hothers⟩ := tokens_acceptReconnect env cur w s l other
  have hback : ∀ t, InRegistry (acceptReconnect env cur w s l other) t → InRegistry w t := by
    rintro t ⟨k, hk⟩
    exact ⟨k, by rw [← hregistry]; exact hk⟩
  have hissue := hcurrent.issue hdistinct (fun t _ ht => hback t ht) htokens htoken hothers
  obtain ⟨n, k, hn, hold⟩ := hcurrent.issued other hother
  refine hissue.accept ⟨n, k, by rw [htokens]; exact Nat.lt_succ_of_lt hn, hold⟩ ?_ ?_
  · intro r hr heq
    exact (hcurrent.accepted r hr).2 other hother heq.symm
  · intro t ht
    by_cases hto : t = other
    · rw [hto, htoken, hold]
      intro heq
      have hsame := hdistinct _ _ _ _ heq
      omega
    · rw [hothers t hto]
      exact hcurrent.distinct t other (hback t ht) hother hto

/-- What a frame asks for, with its record. -/
theorem Current.meet
    {w₁ : World A} {cur : LinkId} {s : SessionId}
    (hdistinct : ∀ n k n' k', env.token n k = env.token n' k' → n = n')
    (hcurrent : Current env h w)
    (hstill : Still w w₁) :
    Current env ((demand env w s).record env w s h) ((demand env w s).meet env cur w₁ s) := by
  have hcurrent₁ := hcurrent.still hstill
  cases hdemand : demand env w s with
  | nothing =>
      exact hcurrent₁
  | connect =>
      simp only [Demand.record, Demand.meet, ← nextToken_still env hstill]
      exact hcurrent₁.connect hdistinct
  | takeOver l other =>
      obtain ⟨_, _, htake⟩ := demand_eq_takeOver env hdemand
      obtain ⟨key, _, hkey⟩ := takeover_eq_some env htake
      simp only [Demand.record, Demand.meet, ← nextToken_still env hstill,
        ← hstill.sessionToken]
      exact hcurrent₁.takeOver hdistinct ⟨key, by rw [hstill.registry]; exact hkey⟩

end CurrentTokens

section CurrentRuns

variable {A : Type} {env : Env A}

/-- Accepting does not touch the registered sessions. -/
theorem Current.acceptLink
    {h : History} {m : Manager A}
    (htcp : env.kind = .tcp)
    (htied : m.Tied)
    (hcurrent : Current env h m.world)
    (cur : LinkId) :
    Current env h (m.accept env cur).world := by
  simp only [Manager.accept]
  split
  · exact hcurrent
  · rename_i l links _
    have hopen : Current env h (openLink m.world l) :=
      hcurrent.same ⟨fun _ => rfl, fun _ => rfl, fun _ => rfl, fun _ => rfl, rfl, rfl⟩
    split
    · exact hopen.loosens (loosens_onError env htcp cur _ l)
    · rename_i s sessions hsessions
      obtain ⟨hnew, _⟩ := Pool.inUse_create hsessions
      rcases Manager.onAcceptFrom_some env cur (openLink m.world l) l s with
        hcrash | ⟨w₁, x, hstill, _, _, hworld⟩
      · simp only [hcrash, Outcome.world_crash]
        exact hopen
      · have hother : ∀ t, InRegistry w₁ t → t ≠ s := by
          rintro t ⟨k, hk⟩ rfl
          rw [hstill.registry] at hk
          exact hnew (htied.registered k t hk).1
        simp only [hworld]
        refine Current.same ?_ (sameSessions_attachSession cur _ l (some s))
        refine (hopen.still hstill).mono (fun _ ht => ht) rfl ?_
        intro t ht
        rw [World.log_sessions, World.setSession_sessions,
          Function.update_of_ne (hother t ht)]

/-- Every step keeps the tokens and the history in agreement. -/
theorem Current.step
    {r : Manager A × History}
    (htcp : env.kind = .tcp)
    (hnever : env.NeverAttaches)
    (hdistinct : ∀ n k n' k', env.token n k = env.token n' k' → n = n')
    (htied : r.1.Tied)
    (hcurrent : Current env r.2 r.1.world)
    (a : Manager.Step) :
    Current env (recordStep env r a).2 (recordStep env r a).1.world := by
  cases a with
  | accept cur =>
      exact (hcurrent.acceptLink htcp htied cur).queue _ _ none
  | act a =>
      cases a with
      | append cur bytes =>
          exact (hcurrent.loosens (loosens_appendRead env htcp cur _ bytes)).queue _ _ none
      | deliver cur s =>
          obtain ⟨w₁, hstill, hloosens⟩ := deliver_demand env htcp hnever cur r.1.world s
          exact ((hcurrent.meet hdistinct hstill).loosens hloosens).queue _ _ _
      | advance cur s n =>
          exact (hcurrent.loosens (loosens_advanceRead env htcp cur _ s n)).queue _ _ none
      | closure l =>
          refine Current.unqueue ?_ l
          simp only [recordStep, Manager.step, act, runClosure]
          split
          · exact hcurrent
          · rename_i session rest _
            have hrest : Current env r.2 (r.1.world.setLink l
                { r.1.world.links l with closures := rest }) :=
              hcurrent.same ⟨fun _ => rfl, fun _ => rfl, fun _ => rfl, fun _ => rfl, rfl, rfl⟩
            exact hrest.same (sameSessions_attachClosure _ l session)
      | strand l busy =>
          refine Current.queue ?_ _ _ none
          simp only [recordStep, Manager.step, act]
          split
          · exact hcurrent.same
              ⟨fun _ => rfl, fun _ => rfl, fun _ => rfl, fun _ => rfl, rfl, rfl⟩
          · exact hcurrent
      | close cur l =>
          exact (hcurrent.loosens (loosens_onError env htcp cur _ l)).queue _ _ none
      | send s buf =>
          exact (hcurrent.still (still_send env 0 _ s buf)).queue _ _ none
      | expire key =>
          refine Current.queue ?_ _ _ none
          refine hcurrent.mono ?_ rfl (fun _ _ => rfl)
          rintro s ⟨k, hk⟩
          simp only [recordStep, Manager.step, act] at hk
          by_cases hkey : k = key
          · rw [hkey, Function.update_self] at hk
            cases hk
          · rw [Function.update_of_ne hkey] at hk
            exact ⟨k, hk⟩
      | tick now =>
          refine Current.queue ?_ _ _ none
          exact hcurrent.still (Still.of_eq rfl rfl rfl rfl)
  | releaseLink l =>
      refine Current.queue ?_ _ _ none
      simp only [recordStep, Manager.step]
      split
      · exact hcurrent
      · exact hcurrent
  | releaseSession s =>
      refine Current.queue ?_ _ _ none
      simp only [recordStep, Manager.step]
      split
      · exact hcurrent
      · exact hcurrent

end CurrentRuns

section NewAttachments

variable {A : Type} (env : Env A)

/-- Session x was attached to link l, or a closure that attaches it was queued. -/
def Attaches (w w' : World A) (l : LinkId) (x : SessionId) : Prop :=
  (w.links l).session ≠ some x ∧ (w'.links l).session = some x ∨
    (w.links l).closures.count (some x) < (w'.links l).closures.count (some x)

variable {w w' : World A} {l : LinkId} {x : SessionId}

theorem not_attaches_iff :
    ¬ Attaches w w' l x ↔
      ((w'.links l).session = some x → (w.links l).session = some x) ∧
        (w'.links l).closures.count (some x) ≤ (w.links l).closures.count (some x) := by
  simp only [Attaches, not_or, not_and, Nat.not_lt]
  refine and_congr_left (fun _ => ⟨fun h hnew => ?_, fun h hold hnew => hold (h hnew)⟩)
  by_contra hold
  exact h hold hnew

theorem not_attaches_trans
    {w₁ w₂ w₃ : World A}
    (h₁ : ¬ Attaches w₁ w₂ l x)
    (h₂ : ¬ Attaches w₂ w₃ l x) :
    ¬ Attaches w₁ w₃ l x := by
  rw [not_attaches_iff] at h₁ h₂ ⊢
  exact ⟨fun h => h₁.1 (h₂.1 h), Nat.le_trans h₂.2 h₁.2⟩

theorem not_attaches_still
    (hstill : Still w w') :
    ¬ Attaches w w' l x := by
  rw [not_attaches_iff, hstill.session, hstill.closures]
  exact ⟨id, Nat.le_refl _⟩

/-- AttachSession attaches the session of its argument to its link, and nothing
else. -/
theorem not_attaches_attachSession
    {cur k : LinkId} {session : Option SessionId}
    (hother : k = l → session ≠ some x) :
    ¬ Attaches w (attachSession cur w k session) l x := by
  rw [not_attaches_iff]
  simp only [attachSession]
  split
  · rw [links_attachClosure]
    by_cases hk : l = k
    · subst hk
      rw [Function.update_self]
      exact ⟨fun h => absurd h (hother rfl), Nat.le_refl _⟩
    · rw [Function.update_of_ne hk]
      exact ⟨id, Nat.le_refl _⟩
  · rw [World.setLink_links]
    by_cases hk : l = k
    · subst hk
      rw [Function.update_self, List.count_append]
      refine ⟨id, ?_⟩
      have hnone : [session].count (some x) = 0 := by
        rw [List.count_eq_zero, List.mem_singleton]
        exact Ne.symm (hother rfl)
      rw [hnone]
      exact Nat.le_refl _
    · rw [Function.update_of_ne hk]
      exact ⟨id, Nat.le_refl _⟩

theorem not_attaches_loosens
    {cur : LinkId}
    (hloosens : Loosens cur w w') :
    ¬ Attaches w w' l x := by
  refine hloosens.rule (fun _ _ hstill h => not_attaches_trans h (not_attaches_still hstill))
    (fun _ _ _ h => not_attaches_trans h (not_attaches_attachSession ?_))
    (not_attaches_still (Still.refl w))
  intro _ hnone
  cases hnone

/-- Only a Reconnect_Req with a valid key and token attaches a session to the link of
its requester. -/
theorem demand_of_attaches
    (htcp : env.kind = .tcp)
    (hnever : env.NeverAttaches)
    {cur : LinkId} {s : SessionId}
    (hattaches : Attaches w (deliver env cur w s).world l x) :
    demand env w s = .takeOver l x := by
  obtain ⟨w₁, hstill, hloosens⟩ := deliver_demand env htcp hnever cur w s
  by_contra hdemand
  refine not_attaches_trans (not_attaches_still hstill)
    (not_attaches_trans ?_ (not_attaches_loosens hloosens)) hattaches
  cases hcase : demand env w s with
  | nothing =>
      exact not_attaches_still (Still.refl w₁)
  | connect =>
      have hquiet := quiet_registerSession env w₁ s
      rw [not_attaches_iff]
      simp only [Demand.meet, hquiet.links]
      exact ⟨id, Nat.le_refl _⟩
  | takeOver k other =>
      have hleave := not_attaches_loosens (l := l) (x := x) (loosens_leaveLink cur w₁ other)
      have hgive := not_attaches_still (l := l) (x := x)
        (still_giveRecvPacket (leaveLink cur w₁ other) other
          ((leaveLink cur w₁ other).sessions s).recvPacket)
      have hover : ¬ Attaches w₁ (handOver env cur w₁ s other) l x :=
        not_attaches_trans hleave hgive
      refine not_attaches_trans (not_attaches_trans hover (not_attaches_attachSession ?_))
        (not_attaches_still (still_acceptReconnect env cur w₁ s k other))
      rintro rfl heq
      cases heq
      exact hdemand hcase

end NewAttachments

end Tcp
end Gamnet
