import Gamnet.Tcp.Joining

/-!
# The attachment of sessions to links

A session that has a link is the session of that link, and what is in a pool is
tied to nothing (`Tied`). This holds in every run. That the session of a link
has the link too (`Mutual`) does not: the closure that detaches a taken over
session from its old link may run behind the one that attaches it to the new
link. `Orderly` excludes these steps.
-/

namespace Gamnet
namespace Tcp

section TiedStates

variable {A : Type}

/-- The ties of the links in use (U) and of the sessions in use (V). -/
structure Tied (U : LinkId → Prop) (V : SessionId → Prop) (w : World A) : Prop where
  session : ∀ l s, (w.sessions s).link = some l → (w.links l).session = some s
  used : ∀ l s, (w.sessions s).link = some l → U l
  usedOpen : ∀ l, (w.links l).isOpen = true → U l
  usedClosures : ∀ l, (w.links l).closures ≠ [] → U l
  live : ∀ l s, (w.sessions s).link = some l → V s
  liveClosures : ∀ l s, some s ∈ (w.links l).closures → V s
  registered : ∀ k s, w.registry k = some s → V s ∧ (w.sessions s).sessionKey = k

/-- The session of a link has the link. -/
def Mutual (w : World A) : Prop :=
  ∀ l s, (w.links l).session = some s → (w.sessions s).link = some l

variable {U : LinkId → Prop} {V : SessionId → Prop} {w w' : World A}

theorem Tied.still
    (h : Tied U V w)
    (hstill : Still w w') :
    Tied U V w' where
  session := by
    intro l s
    rw [hstill.link, hstill.session]
    exact h.session l s
  used := by
    intro l s
    rw [hstill.link]
    exact h.used l s
  usedOpen := fun l hopen => h.usedOpen l (hstill.isOpen l hopen)
  usedClosures := by
    intro l
    rw [hstill.closures]
    exact h.usedClosures l
  live := by
    intro l s
    rw [hstill.link]
    exact h.live l s
  liveClosures := by
    intro l s
    rw [hstill.closures]
    exact h.liveClosures l s
  registered := by
    intro k s
    rw [hstill.registry, hstill.sessionKey]
    exact h.registered k s

theorem Mutual.still
    (h : Mutual w)
    (hstill : Still w w') :
    Mutual w' := by
  intro l s
  rw [hstill.session, hstill.link]
  exact h l s

/-- A closure runs on a link in use, for a session in use. -/
theorem Tied.attachClosure
    {l : LinkId} {session : Option SessionId}
    (h : Tied U V w)
    (hused : U l)
    (hlive : ∀ s, session = some s → V s) :
    Tied U V (attachClosure w l session) := by
  have hsame := sameSessions_attachClosure w l session
  have hlinks : ∀ k s, ((Tcp.attachClosure w l session).sessions s).link = some k →
      session = some s ∧ k = l ∨ k ≠ l ∧ (w.sessions s).link = some k := by
    intro k s
    rw [link_attachClosure]
    split
    · rename_i hs
      intro hk
      exact Or.inl ⟨hs, (Option.some.inj hk).symm⟩
    · split
      · intro hk
        cases hk
      · rename_i hold
        intro hk
        refine Or.inr ⟨?_, hk⟩
        intro heq
        subst heq
        exact hold (h.session k s hk)
  refine ⟨?_, ?_, ?_, ?_, ?_, ?_, ?_⟩
  · intro k s hk
    rw [links_attachClosure]
    rcases hlinks k s hk with ⟨hs, rfl⟩ | ⟨hne, hk⟩
    · rw [Function.update_self]
      exact hs
    · rw [Function.update_of_ne hne]
      exact h.session k s hk
  · intro k s hk
    rcases hlinks k s hk with ⟨_, rfl⟩ | ⟨_, hk⟩
    · exact hused
    · exact h.used k s hk
  · intro k hopen
    rw [links_attachClosure] at hopen
    by_cases hk : k = l
    · rw [hk]
      exact hused
    · rw [Function.update_of_ne hk] at hopen
      exact h.usedOpen k hopen
  · intro k hclosures
    rw [links_attachClosure] at hclosures
    by_cases hk : k = l
    · rw [hk]
      exact hused
    · rw [Function.update_of_ne hk] at hclosures
      exact h.usedClosures k hclosures
  · intro k s hk
    rcases hlinks k s hk with ⟨hs, _⟩ | ⟨_, hk⟩
    · exact hlive s hs
    · exact h.live k s hk
  · intro k s hmem
    rw [links_attachClosure] at hmem
    by_cases hk : k = l
    · subst hk
      rw [Function.update_self] at hmem
      exact h.liveClosures k s hmem
    · rw [Function.update_of_ne hk] at hmem
      exact h.liveClosures k s hmem
  · intro k s
    rw [hsame.registry, hsame.sessionKey]
    exact h.registered k s

/-- A link keeps its session. Only a link in use is open or has closures. -/
theorem Tied.setLink
    {l : LinkId} {x : Link}
    (h : Tied U V w)
    (hsession : x.session = (w.links l).session)
    (hopen : x.isOpen = true → U l)
    (hclosures : x.closures ≠ [] → U l)
    (hlive : ∀ s, some s ∈ x.closures → V s) :
    Tied U V (w.setLink l x) := by
  refine ⟨?_, h.used, ?_, ?_, h.live, ?_, h.registered⟩
  · intro k s hk
    rw [World.setLink_links]
    by_cases hkl : k = l
    · subst hkl
      rw [Function.update_self, hsession]
      exact h.session k s hk
    · rw [Function.update_of_ne hkl]
      exact h.session k s hk
  · intro k hk
    by_cases hkl : k = l
    · subst hkl
      rw [World.setLink_links, Function.update_self] at hk
      exact hopen hk
    · rw [World.setLink_links, Function.update_of_ne hkl] at hk
      exact h.usedOpen k hk
  · intro k hk
    by_cases hkl : k = l
    · subst hkl
      rw [World.setLink_links, Function.update_self] at hk
      exact hclosures hk
    · rw [World.setLink_links, Function.update_of_ne hkl] at hk
      exact h.usedClosures k hk
  · intro k s hmem
    by_cases hkl : k = l
    · subst hkl
      rw [World.setLink_links, Function.update_self] at hmem
      exact hlive s hmem
    · rw [World.setLink_links, Function.update_of_ne hkl] at hmem
      exact h.liveClosures k s hmem

theorem Tied.attachSession
    {cur l : LinkId} {session : Option SessionId}
    (h : Tied U V w)
    (hused : U l)
    (hlive : ∀ s, session = some s → V s) :
    Tied U V (attachSession cur w l session) := by
  simp only [Tcp.attachSession]
  split
  · exact h.attachClosure hused hlive
  · refine h.setLink rfl (h.usedOpen l) (fun _ => hused) ?_
    intro s hmem
    rcases List.mem_append.mp hmem with hmem | hmem
    · exact h.liveClosures l s hmem
    · exact hlive s (List.mem_singleton.mp hmem).symm

theorem Tied.runClosure
    (h : Tied U V w)
    (l : LinkId) :
    Tied U V (runClosure w l) := by
  cases hclosures : (w.links l).closures with
  | nil =>
      simp only [Tcp.runClosure, hclosures]
      exact h
  | cons session rest =>
      have hused : U l := h.usedClosures l (by simp [hclosures])
      simp only [Tcp.runClosure, hclosures]
      refine (h.setLink (x := { w.links l with closures := rest }) rfl (h.usedOpen l)
        (fun _ => hused) ?_).attachClosure hused ?_
      · intro s hmem
        exact h.liveClosures l s (by rw [hclosures]; exact List.mem_cons_of_mem _ hmem)
      · rintro s rfl
        exact h.liveClosures l s (by rw [hclosures]; exact List.mem_cons_self)

/-- Loosens changes keep the ties. -/
theorem Tied.loosens
    {cur : LinkId}
    (h : Tied U V w)
    (hloosens : Loosens cur w w') :
    Tied U V w' := by
  refine hloosens.rule (fun _ _ hstill h => h.still hstill) ?_ h
  intro w l hguard h
  refine h.attachSession ?_ (fun s hs => by cases hs)
  rcases hguard with hopen | ⟨s, hlink⟩
  · exact h.usedOpen l hopen
  · exact h.used l s hlink

/-- The closure of a session without a link, or with this one. -/
theorem Mutual.attachClosure
    {l : LinkId} {session : Option SessionId}
    (hmutual : Mutual w)
    (hlink : ∀ s, session = some s →
      (w.sessions s).link = none ∨ (w.sessions s).link = some l) :
    Mutual (attachClosure w l session) := by
  intro k s
  rw [links_attachClosure, link_attachClosure]
  by_cases hk : k = l
  · subst hk
    rw [Function.update_self]
    intro hs
    rw [if_pos hs]
  · rw [Function.update_of_ne hk]
    intro hs
    have hlinked := hmutual k s hs
    rw [if_neg, if_neg, hlinked]
    · intro hold
      have heq := hmutual l s hold
      rw [hlinked] at heq
      exact hk (Option.some.inj heq)
    · intro hsession
      rcases hlink s hsession with hnone | hsome
      · rw [hlinked] at hnone
        cases hnone
      · rw [hlinked] at hsome
        exact hk (Option.some.inj hsome)

theorem Mutual.setLink
    {l : LinkId} {x : Link}
    (hmutual : Mutual w)
    (hsession : x.session = (w.links l).session) :
    Mutual (w.setLink l x) := by
  intro k s
  rw [World.setLink_links]
  by_cases hk : k = l
  · subst hk
    rw [Function.update_self, hsession]
    exact hmutual k s
  · rw [Function.update_of_ne hk]
    exact hmutual k s

/-- A thread that holds the strand of link cur does not wait for link l. -/
def Free (cur : LinkId) (w : World A) (l : LinkId) : Prop :=
  l = cur ∨ (w.links l).busy = false

instance (cur : LinkId) (w : World A) (l : LinkId) : Decidable (Free cur w l) :=
  inferInstanceAs (Decidable (_ ∨ _))

theorem Mutual.attachSession
    {cur l : LinkId} {session : Option SessionId}
    (hmutual : Mutual w)
    (hlink : Free cur w l → ∀ s, session = some s →
      (w.sessions s).link = none ∨ (w.sessions s).link = some l) :
    Mutual (attachSession cur w l session) := by
  simp only [Tcp.attachSession]
  split
  · rename_i hfree
    exact hmutual.attachClosure (hlink hfree)
  · exact hmutual.setLink rfl

theorem Mutual.loosens
    {cur : LinkId}
    (hmutual : Mutual w)
    (hloosens : Loosens cur w w') :
    Mutual w' :=
  hloosens.rule (fun _ _ hstill h => Mutual.still h hstill)
    (fun _ _ _ h => Mutual.attachSession h (fun _ s hs => by cases hs)) hmutual

end TiedStates

section TiedActs

variable {A : Type} (env : Env A)
variable {U : LinkId → Prop} {V : SessionId → Prop} {w w' : World A}

/-- Quiet functions register sessions in use under their keys. -/
theorem Tied.quiet
    (h : Tied U V w)
    (hquiet : Quiet w w')
    (hkey : ∀ s, (w'.sessions s).sessionKey = (w.sessions s).sessionKey)
    (hregistry : ∀ k s, w'.registry k = some s →
      w.registry k = some s ∨ V s ∧ (w.sessions s).sessionKey = k) :
    Tied U V w' := by
  refine ⟨?_, ?_, ?_, ?_, ?_, ?_, ?_⟩
  · intro l s
    rw [hquiet.links, hquiet.link]
    exact h.session l s
  · intro l s
    rw [hquiet.link]
    exact h.used l s
  · rw [hquiet.links]
    exact h.usedOpen
  · rw [hquiet.links]
    exact h.usedClosures
  · intro l s
    rw [hquiet.link]
    exact h.live l s
  · rw [hquiet.links]
    exact h.liveClosures
  · intro k s hs
    rw [hkey]
    rcases hregistry k s hs with hold | hnew
    · exact h.registered k s hold
    · exact hnew

theorem Mutual.quiet
    (h : Mutual w)
    (hquiet : Quiet w w') :
    Mutual w' := by
  intro l s
  rw [hquiet.links, hquiet.link]
  exact h l s

theorem Tied.registerSession
    {s : SessionId} {l : LinkId}
    (h : Tied U V w)
    (hlink : (w.sessions s).link = some l) :
    Tied U V (registerSession env w s) := by
  refine h.quiet (quiet_registerSession env w s) (sessionKey_registerSession env w s) ?_
  intro k t
  rw [registry_registerSession]
  by_cases hk : k = (w.sessions s).sessionKey
  · subst hk
    rw [Function.update_self]
    intro ht
    cases hkey : w.registry (w.sessions s).sessionKey with
    | none =>
        rw [hkey, Option.getD_none] at ht
        cases ht
        exact Or.inr ⟨h.live l s hlink, rfl⟩
    | some other =>
        rw [hkey, Option.getD_some] at ht
        exact Or.inl ht
  · rw [Function.update_of_ne hk]
    exact Or.inl

/-- What the requester hands to the session that it takes over. -/
def handOver (cur : LinkId) (w : World A) (s other : SessionId) : World A :=
  let w := leaveLink cur w other
  renewToken env
    (w.setSession other
      { w.sessions other with recvPacket := (w.sessions s).recvPacket }) other

/-- Taking over is leaving the old link, the hand-over, the attachment to the
new link, and the answer. -/
theorem still_acceptReconnect
    (cur : LinkId) (w : World A) (s : SessionId) (l : LinkId) (other : SessionId) :
    Still (attachSession cur (handOver env cur w s other) l (some other))
      (acceptReconnect env cur w s l other) :=
  still_linkAnswer env _ l _

theorem still_giveRecvPacket
    (w : World A) (other : SessionId) (p : PacketId) :
    Still w (w.setSession other { w.sessions other with recvPacket := p }) :=
  still_setSession w other _ rfl rfl rfl

theorem Tied.handOver
    (h : Tied U V w)
    (cur : LinkId) (s other : SessionId) :
    Tied U V (handOver env cur w s other) :=
  ((h.loosens (loosens_leaveLink cur w other)).still
    (still_giveRecvPacket _ other _)).quiet (quiet_renewToken env _ other)
      (sessionKey_renewToken env _ other) (fun _ _ => Or.inl)

theorem Mutual.handOver
    (h : Mutual w)
    (cur : LinkId) (s other : SessionId) :
    Mutual (handOver env cur w s other) :=
  ((h.loosens (loosens_leaveLink cur w other)).still
    (still_giveRecvPacket _ other _)).quiet (quiet_renewToken env _ other)

theorem busy_attachSession
    (cur : LinkId) (w : World A) (l : LinkId) (session : Option SessionId) (k : LinkId) :
    ((attachSession cur w l session).links k).busy = (w.links k).busy := by
  simp only [attachSession]
  split
  · rw [links_attachClosure]
    by_cases hk : k = l
    · rw [hk, Function.update_self]
    · rw [Function.update_of_ne hk]
  · rw [World.setLink_links]
    by_cases hk : k = l
    · rw [hk, Function.update_self]
    · rw [Function.update_of_ne hk]

theorem free_leaveLink
    {cur : LinkId} {other : SessionId} {l : LinkId} :
    Free cur (leaveLink cur w other) l ↔ Free cur w l := by
  simp only [Free, leaveLink]
  split
  · exact Iff.rfl
  · rw [busy_attachSession]

/-- A session whose old link detaches it at once has no link left. -/
theorem link_leaveLink
    (h : Tied U V w)
    {cur : LinkId} {other : SessionId}
    (hfree : ∀ old, (w.sessions other).link = some old → Free cur w old) :
    ((leaveLink cur w other).sessions other).link = none := by
  cases hlink : (w.sessions other).link with
  | none =>
      simp only [leaveLink, hlink]
  | some old =>
      have hnow : old = cur ∨ (w.links old).busy = false := hfree old hlink
      simp only [leaveLink, hlink, attachSession]
      rw [if_pos hnow, link_attachClosure]
      simp only [reduceCtorEq, if_false, h.session old other hlink, if_true]

theorem link_handOver
    (w : World A) (cur : LinkId) (s other t : SessionId) :
    ((handOver env cur w s other).sessions t).link =
      ((leaveLink cur w other).sessions t).link :=
  ((quiet_renewToken env _ other).link t).trans
    ((still_giveRecvPacket (leaveLink cur w other) other
      ((leaveLink cur w other).sessions s).recvPacket).link t)

theorem free_handOver
    {cur : LinkId} {s other : SessionId} {l : LinkId} :
    Free cur (handOver env cur w s other) l ↔ Free cur w l :=
  free_leaveLink

/-- The link of the requester and the session that it takes over are in use. -/
theorem Tied.acceptReconnect
    {cur l : LinkId} {s other : SessionId}
    (h : Tied U V w)
    (hused : U l)
    (hlive : V other) :
    Tied U V (acceptReconnect env cur w s l other) :=
  ((h.handOver env cur s other).attachSession hused
    (fun _ hs => Option.some.inj hs ▸ hlive)).still (still_acceptReconnect env cur w s l other)

/-- The old link of the session detaches it before the new link attaches it. -/
theorem Mutual.acceptReconnect
    {cur l : LinkId} {s other : SessionId}
    (hmutual : Mutual w)
    (h : Tied U V w)
    (horder : Free cur w l → ∀ old, (w.sessions other).link = some old → Free cur w old) :
    Mutual (acceptReconnect env cur w s l other) := by
  refine ((hmutual.handOver env cur s other).attachSession ?_).still
    (still_acceptReconnect env cur w s l other)
  intro hfree t ht
  cases ht
  rw [free_handOver] at hfree
  rw [link_handOver]
  exact Or.inl (link_leaveLink h (horder hfree))

/-- What a frame asks for keeps the ties. -/
theorem Tied.meet
    (h : Tied U V w)
    {w₁ : World A} (hstill : Still w w₁)
    (cur : LinkId) (s : SessionId) :
    Tied U V ((demand env w s).meet env cur w₁ s) := by
  have h₁ := h.still hstill
  cases hdemand : demand env w s with
  | nothing =>
      exact h₁
  | connect =>
      obtain ⟨l, hlink⟩ := demand_eq_connect env hdemand
      rw [← hstill.link] at hlink
      exact h₁.registerSession env hlink
  | takeOver l other =>
      obtain ⟨_, hlink, htake⟩ := demand_eq_takeOver env hdemand
      obtain ⟨key, _, hkey⟩ := takeover_eq_some env htake
      exact h₁.acceptReconnect env (h.used l s hlink) (h.registered key other hkey).1

/-- Every act keeps the ties. -/
theorem Tied.act
    (htcp : env.kind = .tcp)
    (hnever : env.NeverAttaches)
    (h : Tied U V w)
    (a : Act) :
    Tied U V (act env w a) := by
  cases a with
  | append cur bytes =>
      exact h.loosens (loosens_appendRead env htcp cur w bytes)
  | deliver cur s =>
      obtain ⟨w₁, hstill, hloosens⟩ := deliver_demand env htcp hnever cur w s
      exact (h.meet env hstill cur s).loosens hloosens
  | advance cur s n =>
      exact h.loosens (loosens_advanceRead env htcp cur w s n)
  | closure l =>
      exact h.runClosure l
  | strand l busy =>
      simp only [Tcp.act]
      split
      · exact h.setLink rfl (h.usedOpen l) (h.usedClosures l) (h.liveClosures l)
      · exact h
  | close cur l =>
      exact h.loosens (loosens_onError env htcp cur w l)
  | send s buf =>
      exact h.still (still_send env 0 w s buf)
  | expire key =>
      refine ⟨h.session, h.used, h.usedOpen, h.usedClosures, h.live, h.liveClosures, ?_⟩
      intro k s hk
      simp only [Tcp.act] at hk
      by_cases hkey : k = key
      · rw [hkey, Function.update_self] at hk
        cases hk
      · rw [Function.update_of_ne hkey] at hk
        exact h.registered k s hk
  | tick now =>
      exact h.still (Still.of_eq rfl rfl rfl rfl)

/-- The closure of an attachment runs behind that of the detachment: at once in a
Reconnect_Req, or from the queue of a link. -/
def OrderlyAct (w : World A) : Act → Prop
  | .closure l =>
      ∀ s rest, (w.links l).closures = some s :: rest →
        (w.sessions s).link = none ∨ (w.sessions s).link = some l
  | .deliver cur s =>
      ∀ l other, demand env w s = .takeOver l other → Free cur w l →
        ∀ old, (w.sessions other).link = some old → Free cur w old
  | _ => True

theorem Mutual.meet
    (hmutual : Mutual w)
    (h : Tied U V w)
    {w₁ : World A} (hstill : Still w w₁)
    {cur : LinkId} {s : SessionId}
    (horder : OrderlyAct env w (.deliver cur s)) :
    Mutual ((demand env w s).meet env cur w₁ s) := by
  have hmutual₁ := hmutual.still hstill
  cases hdemand : demand env w s with
  | nothing =>
      exact hmutual₁
  | connect =>
      exact hmutual₁.quiet (quiet_registerSession env w₁ s)
  | takeOver l other =>
      refine hmutual₁.acceptReconnect env (h.still hstill) ?_
      intro hfree old hold
      rw [hstill.link] at hold
      simp only [Free, hstill.busy] at hfree ⊢
      exact horder l other hdemand hfree old hold

/-- An orderly act keeps the attachments mutual. -/
theorem Mutual.act
    (htcp : env.kind = .tcp)
    (hnever : env.NeverAttaches)
    (hmutual : Mutual w)
    (h : Tied U V w)
    {a : Act}
    (horder : OrderlyAct env w a) :
    Mutual (act env w a) := by
  cases a with
  | append cur bytes =>
      exact hmutual.loosens (loosens_appendRead env htcp cur w bytes)
  | deliver cur s =>
      obtain ⟨w₁, hstill, hloosens⟩ := deliver_demand env htcp hnever cur w s
      exact (hmutual.meet env h hstill horder).loosens hloosens
  | advance cur s n =>
      exact hmutual.loosens (loosens_advanceRead env htcp cur w s n)
  | closure l =>
      simp only [Tcp.act, runClosure]
      split
      · exact hmutual
      · rename_i session rest hclosures
        refine Mutual.attachClosure (Mutual.setLink hmutual rfl) ?_
        rintro s rfl
        exact horder s rest hclosures
  | strand l busy =>
      simp only [Tcp.act]
      split
      · exact hmutual.setLink rfl
      · exact hmutual
  | close cur l =>
      exact hmutual.loosens (loosens_onError env htcp cur w l)
  | send s buf =>
      exact hmutual.still (still_send env 0 w s buf)
  | expire key =>
      exact hmutual
  | tick now =>
      exact hmutual

end TiedActs

section TiedAccepts

variable {A : Type} (env : Env A)
variable {U : LinkId → Prop} {V : SessionId → Prop} {w w' : World A}

theorem Tied.mono
    {U' : LinkId → Prop} {V' : SessionId → Prop}
    (h : Tied U V w)
    (hlinks : ∀ l, U l → U' l)
    (hsessions : ∀ s, V s → V' s) :
    Tied U' V' w where
  session := h.session
  used := fun l s hl => hlinks l (h.used l s hl)
  usedOpen := fun l hl => hlinks l (h.usedOpen l hl)
  usedClosures := fun l hl => hlinks l (h.usedClosures l hl)
  live := fun l s hl => hsessions s (h.live l s hl)
  liveClosures := fun l s hs => hsessions s (h.liveClosures l s hs)
  registered := fun k s hs => ⟨hsessions s (h.registered k s hs).1, (h.registered k s hs).2⟩

/-- A link of the pool is opened. -/
theorem Tied.openLink
    {U' : LinkId → Prop} {l : LinkId}
    (h : Tied U V w)
    (hpooled : ¬ U l)
    (hlinks : ∀ k, U' k ↔ k = l ∨ U k) :
    Tied U' V (openLink w l) := by
  have hne : ∀ k s, (w.sessions s).link = some k → k ≠ l := by
    rintro k s hk rfl
    exact hpooled (h.used k s hk)
  refine ⟨?_, ?_, ?_, ?_, h.live, ?_, h.registered⟩
  · intro k s hk
    simp only [Tcp.openLink, World.setLink_links]
    rw [Function.update_of_ne (hne k s hk)]
    exact h.session k s hk
  · intro k s hk
    exact (hlinks k).mpr (Or.inr (h.used k s hk))
  · intro k hk
    by_cases hkl : k = l
    · exact (hlinks k).mpr (Or.inl hkl)
    · simp only [Tcp.openLink, World.setLink_links, Function.update_of_ne hkl] at hk
      exact (hlinks k).mpr (Or.inr (h.usedOpen k hk))
  · intro k hk
    by_cases hkl : k = l
    · exact (hlinks k).mpr (Or.inl hkl)
    · simp only [Tcp.openLink, World.setLink_links, Function.update_of_ne hkl] at hk
      exact (hlinks k).mpr (Or.inr (h.usedClosures k hk))
  · intro k s hs
    by_cases hkl : k = l
    · subst hkl
      simp only [Tcp.openLink, World.setLink_links, Function.update_self] at hs
      cases hs
    · simp only [Tcp.openLink, World.setLink_links, Function.update_of_ne hkl] at hs
      exact h.liveClosures k s hs

theorem Mutual.openLink
    (hmutual : Mutual w)
    (l : LinkId) :
    Mutual (openLink w l) := by
  intro k s hk
  by_cases hkl : k = l
  · subst hkl
    simp only [Tcp.openLink, World.setLink_links, Function.update_self] at hk
    cases hk
  · simp only [Tcp.openLink, World.setLink_links, Function.update_of_ne hkl] at hk
    exact hmutual k s hk

/-- A session of the pool is set up. -/
theorem Tied.newSession
    {s : SessionId} {x : Session}
    (h : Tied U V w)
    (hpooled : ¬ V s)
    (hlink : x.link = none) :
    Tied U V (w.setSession s x) := by
  have hlinked : ∀ k t, ((w.setSession s x).sessions t).link = some k →
      (w.sessions t).link = some k := by
    intro k t
    rw [World.setSession_sessions]
    by_cases ht : t = s
    · rw [ht, Function.update_self, hlink]
      intro hnone
      cases hnone
    · rw [Function.update_of_ne ht]
      exact id
  refine ⟨fun k t hk => h.session k t (hlinked k t hk), fun k t hk => h.used k t (hlinked k t hk),
    h.usedOpen, h.usedClosures, fun k t hk => h.live k t (hlinked k t hk), h.liveClosures, ?_⟩
  intro k t hk
  have hold := h.registered k t hk
  have hne : t ≠ s := by
    rintro rfl
    exact hpooled hold.1
  rw [World.setSession_sessions, Function.update_of_ne hne]
  exact hold

theorem Mutual.newSession
    {s : SessionId} {x : Session}
    (hmutual : Mutual w)
    (h : Tied U V w)
    (hpooled : ¬ V s) :
    Mutual (w.setSession s x) := by
  intro k t hk
  have hlinked := hmutual k t hk
  have hne : t ≠ s := by
    rintro rfl
    exact hpooled (h.live k t hlinked)
  rw [World.setSession_sessions, Function.update_of_ne hne]
  exact hlinked

namespace Manager

/-- OnAccept with a session of the pool: it crashes, or a fresh session is
attached. -/
theorem onAcceptFrom_some
    (cur : LinkId) (w : World A) (l : LinkId) (s : SessionId) :
    onAcceptFrom env cur w l (some s) = .crash .nullPacket w ∨
      ∃ w₁ x, Still w w₁ ∧ x.link = none ∧ x.sessionToken = "" ∧
        (onAcceptFrom env cur w l (some s)).world =
          attachSession cur ((w₁.setSession s x).log (.accept s)) l (some s) := by
  simp only [onAcceptFrom]
  cases hcreate : createPacket env { w with keys := w.keys + 1 } with
  | none =>
      exact Or.inl rfl
  | some created =>
      obtain ⟨p, w₁⟩ := created
      have hkeys : Still w { w with keys := w.keys + 1 } := Still.of_eq rfl rfl rfl rfl
      exact Or.inr ⟨w₁, _, hkeys.trans (still_createPacket env hcreate), rfl, rfl, rfl⟩

/-- The ties of a manager: what is in a pool is tied to nothing. -/
def Tied (m : Manager A) : Prop :=
  Tcp.Tied m.links.InUse m.sessions.InUse m.world

theorem tied_listen
    (maxSession : Nat) (app : A) :
    Tied (listen maxSession app) := by
  refine ⟨?_, ?_, ?_, ?_, ?_, ?_, ?_⟩
  · intro l s h
    cases h
  · intro l s h
    cases h
  · intro l h
    cases h
  · intro l h
    exact absurd rfl h
  · intro l s h
    cases h
  · intro l s h
    cases h
  · intro k s h
    cases h

/-- Accepting keeps the ties. -/
theorem Tied.accept
    {m : Manager A}
    (htcp : env.kind = .tcp)
    (h : m.Tied)
    (cur : LinkId) :
    (m.accept env cur).Tied := by
  simp only [Manager.accept]
  split
  · exact h
  · rename_i l links hlinks
    obtain ⟨hpooled, hused⟩ := Pool.inUse_create hlinks
    have hopen := Tcp.Tied.openLink h hpooled hused
    split
    · exact hopen.loosens (loosens_onError env htcp cur _ l)
    · rename_i s sessions hsessions
      obtain ⟨hnew, hlive⟩ := Pool.inUse_create hsessions
      rcases onAcceptFrom_some env cur (openLink m.world l) l s with
        hcrash | ⟨w₁, x, hstill, hlink, _, hworld⟩
      · simp only [Manager.Tied, hcrash, Outcome.world_crash]
        exact hopen.mono (fun _ h => h) (fun t ht => (hlive t).mpr (Or.inr ht))
      · simp only [Manager.Tied, hworld]
        have hsession := (hopen.still hstill).newSession hnew hlink
        have hlogged : Tcp.Tied links.InUse m.sessions.InUse
            ((w₁.setSession s x).log (.accept s)) :=
          hsession.still (Still.of_eq rfl rfl rfl rfl)
        refine (hlogged.mono (fun _ h => h) (fun t ht => (hlive t).mpr (Or.inr ht))).attachSession
          ((hused l).mpr (Or.inl rfl)) ?_
        intro t ht
        exact (hlive t).mpr (Or.inl (Option.some.inj ht).symm)

theorem mutual_accept
    {m : Manager A}
    (htcp : env.kind = .tcp)
    (h : m.Tied)
    (hmutual : Mutual m.world)
    (cur : LinkId) :
    Mutual (m.accept env cur).world := by
  simp only [Manager.accept]
  split
  · exact hmutual
  · rename_i l links hlinks
    obtain ⟨hpooled, hused⟩ := Pool.inUse_create hlinks
    have hopen := Tcp.Tied.openLink h hpooled hused
    have hmutual₁ := hmutual.openLink l
    split
    · exact hmutual₁.loosens (loosens_onError env htcp cur _ l)
    · rename_i s sessions hsessions
      obtain ⟨hnew, _⟩ := Pool.inUse_create hsessions
      rcases onAcceptFrom_some env cur (openLink m.world l) l s with
        hcrash | ⟨w₁, x, hstill, hlink, _, hworld⟩
      · simp only [hcrash, Outcome.world_crash]
        exact hmutual₁
      · simp only [hworld]
        have hsession := (hmutual₁.still hstill).newSession (x := x) (hopen.still hstill) hnew
        refine Mutual.attachSession (hsession.still (Still.of_eq rfl rfl rfl rfl)) ?_
        intro _ t ht
        cases ht
        left
        rw [World.log_sessions, World.setSession_sessions, Function.update_self, hlink]

/-- An object goes back to its pool when nothing refers to it. -/
theorem Tied.releaseLink
    {m : Manager A} {l : LinkId}
    (h : m.Tied)
    (hin : m.links.InUse l)
    (hfree : ¬ m.LinkReferenced l) :
    Tied { m with links := m.links.restitute l hin } := by
  simp only [LinkReferenced, not_or, not_exists, not_and, List.mem_range] at hfree
  obtain ⟨hopen, _, hclosures, hlinks⟩ := hfree
  refine ⟨h.session, ?_, ?_, ?_, h.live, h.liveClosures, h.registered⟩
  · intro k s hk
    refine (Pool.inUse_restitute hin).mpr ⟨?_, h.used k s hk⟩
    rintro rfl
    exact hlinks s (h.live k s hk).1 hk
  · intro k hk
    refine (Pool.inUse_restitute hin).mpr ⟨?_, h.usedOpen k hk⟩
    rintro rfl
    exact hopen hk
  · intro k hk
    refine (Pool.inUse_restitute hin).mpr ⟨?_, h.usedClosures k hk⟩
    rintro rfl
    exact hclosures hk

theorem Tied.releaseSession
    {m : Manager A} {s : SessionId}
    (h : m.Tied)
    (hin : m.sessions.InUse s)
    (hfree : ¬ m.SessionReferenced s) :
    Tied { m with sessions := m.sessions.restitute s hin } := by
  simp only [SessionReferenced, not_or, not_exists, not_and, List.mem_range] at hfree
  obtain ⟨hlinks, hregistry⟩ := hfree
  refine ⟨h.session, h.used, h.usedOpen, h.usedClosures, ?_, ?_, ?_⟩
  · intro l t hl
    refine (Pool.inUse_restitute hin).mpr ⟨?_, h.live l t hl⟩
    rintro rfl
    exact (hlinks l (h.used l t hl).1).1 (h.session l t hl)
  · intro l t ht
    refine (Pool.inUse_restitute hin).mpr ⟨?_, h.liveClosures l t ht⟩
    rintro rfl
    exact (hlinks l (h.usedClosures l (List.ne_nil_of_mem ht)).1).2 ht
  · intro k t ht
    obtain ⟨hlive, hkey⟩ := h.registered k t ht
    refine ⟨(Pool.inUse_restitute hin).mpr ⟨?_, hlive⟩, hkey⟩
    rintro rfl
    exact hregistry (by rw [hkey]; exact ht)

/-- Every step keeps the ties. -/
theorem Tied.step
    {m : Manager A}
    (htcp : env.kind = .tcp)
    (hnever : env.NeverAttaches)
    (h : m.Tied)
    (a : Step) :
    (m.step env a).Tied := by
  cases a with
  | accept cur =>
      exact h.accept env htcp cur
  | act a =>
      exact Tcp.Tied.act env htcp hnever h a
  | releaseLink l =>
      simp only [Manager.step]
      split
      · rename_i hguard
        exact h.releaseLink hguard.1 hguard.2
      · exact h
  | releaseSession s =>
      simp only [Manager.step]
      split
      · rename_i hguard
        exact h.releaseSession hguard.1 hguard.2
      · exact h

theorem Tied.run
    {m : Manager A}
    (htcp : env.kind = .tcp)
    (hnever : env.NeverAttaches)
    (h : m.Tied)
    (steps : List Step) :
    (m.run env steps).Tied := by
  induction steps generalizing m with
  | nil =>
      exact h
  | cons a steps ih =>
      exact ih (h.step env htcp hnever a)

/-- The condition under which a step keeps links and sessions attached to each
other. -/
def Orderly (m : Manager A) : Step → Prop
  | .act a => OrderlyAct env m.world a
  | _ => True

theorem mutual_step
    {m : Manager A} {a : Step}
    (htcp : env.kind = .tcp)
    (hnever : env.NeverAttaches)
    (h : m.Tied)
    (hmutual : Mutual m.world)
    (horder : Orderly env m a) :
    Mutual (m.step env a).world := by
  cases a with
  | accept cur =>
      exact mutual_accept env htcp h hmutual cur
  | act a =>
      exact hmutual.act env htcp hnever h horder
  | releaseLink l =>
      simp only [Manager.step]
      split
      · exact hmutual
      · exact hmutual
  | releaseSession s =>
      simp only [Manager.step]
      split
      · exact hmutual
      · exact hmutual

/-- Link l has session s attached, if and only if the session has the link. -/
def AttachedBothWays (m : Manager A) : Prop :=
  ∀ l s, (m.world.links l).session = some s ↔ (m.world.sessions s).link = some l

/-- In a run whose steps are orderly, links and sessions are attached to each
other in every state, also while closures wait. -/
theorem attachedBothWays_of_orderly
    (htcp : env.kind = .tcp)
    (hnever : env.NeverAttaches)
    (maxSession : Nat) (app : A) (steps : List Step)
    (horder : EveryStep env (Orderly env) (listen maxSession app) steps) :
    EveryState env AttachedBothWays (listen maxSession app) steps := by
  refine everyState_of_everyStep env (P := fun m => m.Tied ∧ Mutual m.world) ?_ ?_ ?_ horder
  · rintro m a ⟨htied, hmutual⟩ horder
    exact ⟨htied.step env htcp hnever a, mutual_step env htcp hnever htied hmutual horder⟩
  · rintro m ⟨htied, hmutual⟩ l s
    exact ⟨hmutual l s, htied.session l s⟩
  · refine ⟨tied_listen maxSession app, ?_⟩
    intro l s h
    cases h

/-- A manager without application code, whose first accept leaves the attachment to
the strand of the link. -/
theorem attachedBothWays_of_orderly_accept :
    EveryState Env.bare AttachedBothWays (listen 2 ())
      [.accept 1, .act (.closure 0), .act (.strand 0 false), .act (.close 0 0)] :=
  attachedBothWays_of_orderly Env.bare rfl
    (neverAttaches_listen _ _ (fun _ _ hu => nomatch hu))
    2 () _
    ⟨trivial, by
      intro s rest hclosures
      cases hclosures
      exact Or.inl rfl, trivial, trivial, trivial⟩

end Manager

end TiedAccepts

section Separation

variable {A : Type} (env : Env A)

/-- The old link of a session is busy when the session is taken over, and its closure
runs afterwards: the session has lost the new link. -/
theorem separated_of_takeOver
    {w : World A} {s other : SessionId} {l old : LinkId}
    (hdemand : demand env w s = .takeOver l other)
    (hattached : Attached w old other)
    (hne : old ≠ l)
    (hbusy : (w.links old).busy = true)
    (hclosures : ∀ k, (w.links k).closures = []) :
    ((runClosure (deliver env l w s).world old).links l).session = some other ∧
      ((runClosure (deliver env l w s).world old).sessions other).link = none ∧
      ∀ k, ((runClosure (deliver env l w s).world old).links k).closures = [] := by
  obtain ⟨w₁, hbefore, hafter⟩ := deliver_takeOver env l hdemand
  have hlinks : (handOver env l w₁ s other).links =
      Function.update w₁.links old { w₁.links old with closures := [none] } := by
    have hqueue : leaveLink l w₁ other =
        w₁.setLink old { w₁.links old with closures := [none] } := by
      have hlink : (w₁.sessions other).link = some old := by
        rw [hbefore.link, hattached.link]
      have hnone : (w₁.links old).closures = [] := by
        rw [hbefore.closures, hclosures]
      have hwaits : ¬ (old = l ∨ (w₁.links old).busy = false) := by
        rw [hbefore.busy, hbusy]
        simpa using hne
      simp only [leaveLink, hlink, attachSession]
      rw [if_neg hwaits, hnone, List.nil_append]
    simp only [handOver, hqueue]
    rfl
  have hover := (still_acceptReconnect env l w₁ s l other).trans hafter
  simp only [attachSession, true_or, if_true] at hover
  generalize deliver env l w s = r at hover ⊢
  have hold : (r.world.links old).session = some other ∧
      (r.world.links old).closures = [none] := by
    rw [hover.session, hover.closures, links_attachClosure, hlinks,
      Function.update_of_ne hne, Function.update_self, hbefore.session, hattached.session]
    exact ⟨rfl, rfl⟩
  have hnew : (r.world.links l).session = some other := by
    rw [hover.session, links_attachClosure, Function.update_self]
  simp only [runClosure, hold.2]
  refine ⟨?_, ?_, ?_⟩
  · rw [links_attachClosure, Function.update_of_ne (Ne.symm hne), World.setLink_links,
      Function.update_of_ne (Ne.symm hne), hnew]
  · rw [link_attachClosure, World.setLink_links, Function.update_self]
    simp only [reduceCtorEq, if_false, hold.1, if_true]
  · intro k
    rw [links_attachClosure]
    by_cases hk : k = old
    · rw [hk, Function.update_self, World.setLink_links, Function.update_self]
    · rw [Function.update_of_ne hk, World.setLink_links, Function.update_of_ne hk,
        hover.closures, links_attachClosure, hlinks]
      by_cases hkl : k = l
      · rw [hkl, Function.update_self, Function.update_of_ne (Ne.symm hne), hbefore.closures,
          hclosures]
      · rw [Function.update_of_ne hkl, Function.update_of_ne hk, hbefore.closures, hclosures]

/-- Client 0 connects. While link 0 is busy, client 1 takes its session over; then the
closure of link 0 runs. -/
def separatingSteps : List Manager.Step :=
  joinSteps 0 0 ++ askSteps 1 reconnectReq ++ [.act (.deliver 1 1), .act (.closure 0)]

/-- No closure waits, and link 1 has a session that has no link. -/
theorem separatingSteps_separate :
    (∀ l, ((Manager.run Env.silent (Manager.listen 2 ()) separatingSteps).world.links
      l).closures = []) ∧
    ((Manager.run Env.silent (Manager.listen 2 ()) separatingSteps).world.links 1).session =
      some 0 ∧
    ((Manager.run Env.silent (Manager.listen 2 ()) separatingSteps).world.sessions 0).link =
      none ∧
    ¬ Manager.AttachedBothWays
      (Manager.run Env.silent (Manager.listen 2 ()) separatingSteps) := by
  obtain ⟨hlinks, hsessions, hjoined⟩ := joined Env.silent (m := Manager.listen 2 ()) (l := 0)
    (s := 0) (p := (Pool.ofCapacity 2).make (by decide))
    (q := (Pool.ofCapacity 2).make (by decide)) rfl rfl (fun _ => rfl) rfl rfl rfl rfl
  have hasking := asking Env.silent
    (m := Manager.run Env.silent (Manager.listen 2 ()) (joinSteps 0 0)) (l := 1) (s := 1)
    (p := ((Pool.ofCapacity 2).make (by decide)).make (by decide))
    (q := ((Pool.ofCapacity 2).make (by decide)).make (by decide)) rfl
    (by rw [hlinks]; rfl) (by rw [hsessions]; rfl) reconnectReq
  have hdeliver : ∀ m : Manager Unit,
      (m.run Env.silent [.act (.deliver 1 1), .act (.closure 0)]).world =
        runClosure (deliver Env.silent 1 m.world 1).world 0 :=
    fun _ => rfl
  have hrun : (Manager.run Env.silent (Manager.listen 2 ()) separatingSteps).world =
      runClosure (deliver Env.silent 1 (Manager.run Env.silent (Manager.run Env.silent
        (Manager.listen 2 ()) (joinSteps 0 0)) (askSteps 1 reconnectReq)).world 1).world 0 := by
    rw [separatingSteps, Manager.run_append, Manager.run_append, hdeliver]
  generalize (Manager.run Env.silent (Manager.listen 2 ()) (joinSteps 0 0)) = m₁ at *
  generalize (Manager.run Env.silent m₁ (askSteps 1 reconnectReq)).world = w at *
  have hvalid : ValidReconnect Env.silent w 1 reconnectReq 0 := by
    refine ⟨by decide, rfl, ?_, by decide, 1, "token", parse_silent, ?_, ?_⟩
    · rw [hasking.msgSeq]
      decide
    · rw [hasking.registry, hjoined.registry]
      rfl
    · rw [hasking.others 0 (by decide), hjoined.sessionToken]
      rfl
  have hold : w.links 0 = Link.accepted 0 := by
    rw [hasking.links, Function.update_of_ne (by decide), hjoined.links, Function.update_self]
  obtain ⟨hsession, hlink, hclosures⟩ := separated_of_takeOver Env.silent (l := 1)
    (demand_reconnect Env.silent rfl hasking.receiving hvalid)
    ⟨by rw [hold]; rfl, by rw [hasking.others 0 (by decide), hjoined.link]⟩
    (by decide) (by rw [hold]; rfl) (by
      intro k
      rw [hasking.links, hjoined.links]
      by_cases hk : k = 1
      · rw [hk, Function.update_self]
        rfl
      · rw [Function.update_of_ne hk]
        by_cases hk₀ : k = 0
        · rw [hk₀, Function.update_self]
          rfl
        · rw [Function.update_of_ne hk₀]
          rfl)
  rw [← hrun] at hsession hlink hclosures
  refine ⟨hclosures, hsession, hlink, ?_⟩
  intro hboth
  have hlinked := (hboth 1 0).mp hsession
  rw [hlink] at hlinked
  cases hlinked

end Separation

end Tcp
end Gamnet
