import Gamnet.Lib.Transition
import Mathlib.Algebra.Group.Nat.Defs
import Mathlib.Data.Fintype.Basic
import Mathlib.Logic.Function.Basic

/-!
# The link registry

A link manager keeps the links that are attached to it in a map from their keys. The keys
are taken from a counter of 64 bits that all managers share, and are stored in 32 bits.
Add does nothing when the key is in the map already, Remove does nothing for the key 0 and
else erases whatever link is there, and an exception of OnClose keeps OnError from
detaching the link that it closes.

The map of a manager lists the links that are attached to it and not closed in every state
of a run exactly if no step does one of these things where it matters
(`registry_tracks_iff`).
-/

namespace Gamnet
namespace Network

/-- The socket of a link, since Create handed out the link. -/
inductive Socket
  | fresh
  | open
  | closed
deriving DecidableEq

/-- The links, and the maps of the managers M. A link is used until it goes back to its
pool. -/
structure Registry (M : Type) where
  linkKey : Nat
  used : Nat → Bool
  key : Nat → Nat
  manager : Nat → Option M
  socket : Nat → Socket
  links : M → Nat → Option Nat

namespace Registry

variable {M : Type} [DecidableEq M]

/-- No link has been handed out. -/
def initial : Registry M where
  linkKey := 0
  used := fun _ => false
  key := fun _ => 0
  manager := fun _ => none
  socket := fun _ => .fresh
  links := fun _ _ => none

/-- LinkManager::Add. -/
def add (w : Registry M) (m : M) (key l : Nat) : Registry M :=
  match w.links m key with
  | some _ => w
  | none => { w with links := Function.update w.links m (Function.update (w.links m) key (some l)) }

/-- LinkManager::Remove. -/
def remove (w : Registry M) (m : M) (key : Nat) : Registry M :=
  if key = 0 then w
  else { w with links := Function.update w.links m (Function.update (w.links m) key none) }

/-- LinkManager::Find. -/
def find (w : Registry M) (m : M) (key : Nat) : Option Nat :=
  w.links m key

/-- LinkManager::Create, with the link that the pool hands out. -/
def create (w : Registry M) (l : Nat) : Registry M :=
  let linkKey := (w.linkKey + 1) % 2 ^ 64
  { w with
    linkKey := linkKey
    used := Function.update w.used l true
    key := Function.update w.key l (linkKey % 2 ^ 32)
    manager := Function.update w.manager l none
    socket := Function.update w.socket l
      (if w.socket l = .closed then .fresh else w.socket l) }

/-- The removal from the map of the manager of a link. -/
def removeLink (w : Registry M) (l : Nat) : Registry M :=
  match w.manager l with
  | none => w
  | some m => w.remove m (w.key l)

/-- Link::AttachManager, on the strand of the link. -/
def attachManager (w : Registry M) (l : Nat) (manager : Option M) : Registry M :=
  let w := w.removeLink l
  let w := { w with manager := Function.update w.manager l manager }
  match manager with
  | none => w
  | some m => w.add m (w.key l) l

/-- Link::OnError. The OnClose of the manager calls that of the session, which may throw. -/
def onError (w : Registry M) (l : Nat) (throws : Bool) : Registry M :=
  if w.socket l ≠ .open then w
  else
    let w :=
      if (w.manager l).isSome && throws then w
      else w.attachManager l none
    { w with socket := Function.update w.socket l .closed }

/-- The steps of a run. A socket is opened by the async_accept or the async_connect with
its link, and a link goes back to its pool when no map has a pointer to it. -/
inductive Step (M : Type)
  | create (l : Nat)
  | open (l : Nat)
  | attachManager (l : Nat) (manager : Option M)
  | onError (l : Nat) (throws : Bool)
  | find (m : M) (key : Nat)
  | release (l : Nat)

/-- One step, if it is possible. -/
def step [Fintype M] (w : Registry M) : Step M → Option (Registry M)
  | .create l => if w.used l then none else some (w.create l)
  | .open l =>
      if w.used l ∧ w.socket l = .fresh then
        some { w with socket := Function.update w.socket l .open }
      else none
  | .attachManager l manager => if w.used l then some (w.attachManager l manager) else none
  | .onError l throws => if w.used l then some (w.onError l throws) else none
  | .find _ _ => some w
  | .release l =>
      if ∃ m, w.links m (w.key l) = some l then none
      else some { w with used := Function.update w.used l false }

/-- The map of a manager has the links that are attached to it and not closed, under their
keys. -/
def Tracks (m : M) (w : Registry M) : Prop :=
  ∀ key l, w.find m key = some l ↔
    w.manager l = some m ∧ w.key l = key ∧ w.socket l ≠ .closed

/-- No other link is in the map under the key of the link. -/
def Alone (m : M) (w : Registry M) (l : Nat) : Prop :=
  ∀ l', w.links m (w.key l) = some l' → l' = l

/-- What keeps the map of a manager right. A link that is attached to the manager is not
closed and alone under its key, and it is also alone, and its key is not zero, when it is
attached to another one or to none. When the manager closes a link, OnClose does not throw,
and the key is not zero. (A closed link may be attached where Add refuses it, and one that
Add refused may be attached elsewhere if that erases no entry.) -/
def Keeps (m : M) (w : Registry M) : Step M → Prop
  | .attachManager l manager =>
      w.used l →
        if manager = some m then
          if w.socket l = .closed then
            w.links m (w.key l) ≠ none ∧ (w.manager l = some m → w.key l = 0)
          else w.Alone m l
        else
          w.manager l = some m →
            if w.key l = 0 then w.links m 0 ≠ some l else w.Alone m l
  | .onError l throws =>
      w.used l → w.socket l = .open → w.manager l = some m → throws = false ∧ w.key l ≠ 0
  | _ => True

section Maps

variable (w : Registry M) (l : Nat) (m : M) (key : Nat)

theorem remove_eq
    (m' : M) (key' : Nat) :
    w.remove m' key' = { w with links := (w.remove m' key').links } := by
  unfold remove
  split
  · rfl
  · rfl

theorem removeLink_eq :
    w.removeLink l = { w with links := (w.removeLink l).links } := by
  unfold removeLink
  split
  · rfl
  · exact remove_eq w _ _

theorem add_eq
    (m' : M) (key' : Nat) :
    w.add m' key' l = { w with links := (w.add m' key' l).links } := by
  unfold add
  split
  · rfl
  · rfl

theorem links_remove
    (m' : M) (key' : Nat) :
    (w.remove m' key').links m key =
      if m' = m ∧ key = key' ∧ key ≠ 0 then none else w.links m key := by
  unfold remove
  by_cases hzero : key' = 0
  · rw [if_pos hzero, if_neg]
    rintro ⟨-, rfl, hne⟩
    exact hne hzero
  · rw [if_neg hzero]
    by_cases hm : m = m'
    · subst hm
      by_cases hkey : key = key'
      · subst hkey
        simp [hzero]
      · simp [hkey]
    · simp [hm, Ne.symm hm]

theorem links_removeLink :
    (w.removeLink l).links m key =
      if w.manager l = some m ∧ key = w.key l ∧ key ≠ 0 then none else w.links m key := by
  unfold removeLink
  cases hmanager : w.manager l with
  | none => simp
  | some m' =>
      rw [links_remove]
      simp only [Option.some.injEq]

theorem links_add
    (m' : M) (key' : Nat) :
    (w.add m' key' l).links m key =
      if m' = m ∧ key = key' ∧ w.links m key = none then some l else w.links m key := by
  unfold add
  by_cases hm : m = m'
  · subst hm
    by_cases hkey : key = key'
    · subst hkey
      split
      · rename_i hentry
        simp [hentry]
      · rename_i hentry
        simp [hentry]
    · split
      · simp [hkey]
      · simp [hkey]
  · split
    · simp [Ne.symm hm]
    · simp [hm, Ne.symm hm]

/-- AttachManager changes the manager of the link and the maps. -/
theorem attachManager_eq
    (manager : Option M) :
    w.attachManager l manager =
      { w with
        manager := Function.update w.manager l manager
        links := (w.attachManager l manager).links } := by
  unfold attachManager
  rw [removeLink_eq]
  cases manager with
  | none => rfl
  | some m => exact add_eq _ _ _ _

/-- The entry under the key of the link is removed from the map of the old manager, and
made in that of the new one if there is none. -/
theorem links_attachManager
    (manager : Option M) :
    (w.attachManager l manager).links m key =
      if manager = some m ∧ key = w.key l ∧ (w.removeLink l).links m key = none then some l
      else (w.removeLink l).links m key := by
  have hkey : (w.removeLink l).key = w.key := by
    rw [removeLink_eq]
  cases manager with
  | none => simp [attachManager]
  | some m' =>
      simp only [attachManager]
      rw [links_add, hkey]
      simp only [Option.some.injEq]

/-- OnError of an open link removes its entry if the manager has it, OnClose does not throw
and the key is not zero, and closes the link in any case. -/
theorem onError_open
    (hopen : w.socket l = .open)
    (throws : Bool) :
    (w.onError l throws).used = w.used ∧
      (w.onError l throws).key = w.key ∧
        (w.onError l throws).socket = Function.update w.socket l .closed ∧
          (∀ l', l' ≠ l → (w.onError l throws).manager l' = w.manager l') ∧
            ∀ key, (w.onError l throws).links m key =
              if w.manager l = some m ∧ throws = false ∧ key = w.key l ∧ key ≠ 0 then none
              else w.links m key := by
  unfold onError
  simp only [hopen, ne_eq, not_true, if_false]
  split
  · rename_i hthrows
    rw [Bool.and_eq_true] at hthrows
    refine ⟨rfl, rfl, rfl, fun _ _ => rfl, fun key => ?_⟩
    simp [hthrows.2]
  · rename_i hthrows
    have hcaught : ∀ m', w.manager l = some m' → throws = false := by
      intro m' hm'
      cases throws with
      | false => rfl
      | true => exact absurd (by simp [hm']) hthrows
    rw [attachManager_eq]
    refine ⟨rfl, rfl, rfl, fun l' hl => Function.update_of_ne hl _ _, fun key => ?_⟩
    dsimp only
    rw [links_attachManager, links_removeLink]
    by_cases hm : w.manager l = some m
    · simp [hm, hcaught m hm]
    · simp [hm]

end Maps

section Steps

variable {m : M} {w : Registry M}

omit [DecidableEq M] in
/-- A link that is attached and not closed is the entry under its key. -/
theorem Tracks.entry_iff
    (h : w.Tracks m)
    (l : Nat) :
    w.links m (w.key l) = some l ↔ w.manager l = some m ∧ w.socket l ≠ .closed := by
  refine (h (w.key l) l).trans ?_
  simp only [true_and]

/-- Behind AttachManager only the entry under the key of the link can be wrong: it must be
the link if this is attached to the manager and not closed, and another link if it was. -/
theorem tracks_attachManager_iff_entry
    (h : w.Tracks m)
    (l : Nat) (manager : Option M) :
    (w.attachManager l manager).Tracks m ↔
      ∀ l', (w.attachManager l manager).links m (w.key l) = some l' ↔
        if l' = l then manager = some m ∧ w.socket l ≠ .closed
        else w.links m (w.key l) = some l' := by
  have hentry : ∀ l', ((w.attachManager l manager).manager l' = some m ∧
      (w.attachManager l manager).key l' = w.key l ∧
        (w.attachManager l manager).socket l' ≠ .closed) ↔
          if l' = l then manager = some m ∧ w.socket l ≠ .closed
          else w.links m (w.key l) = some l' := by
    intro l'
    rw [attachManager_eq]
    by_cases hl : l' = l
    · subst hl
      simp
    · rw [if_neg hl]
      simp only [Function.update_of_ne hl]
      exact (h (w.key l) l').symm
  constructor
  · intro htracks l'
    rw [← hentry]
    exact htracks (w.key l) l'
  · intro hslot key l'
    by_cases hkey : key = w.key l
    · subst hkey
      rw [hentry]
      exact hslot l'
    · have hlinks : (w.attachManager l manager).links m key = w.links m key := by
        rw [links_attachManager, links_removeLink]
        simp [hkey]
      rw [find, hlinks]
      refine (h key l').trans ?_
      rw [attachManager_eq]
      by_cases hl : l' = l
      · subst hl
        simp [Ne.symm hkey]
      · simp [hl]

/-- What the four questions about AttachManager come to, for the entry under the key of the
link: whether the link is attached to the manager, was attached to it, has the key zero and
is closed. -/
theorem entry_iff_keeps
    {l : Nat} {attached was zero closed : Prop}
    [Decidable attached] [Decidable was] [Decidable zero] [Decidable closed]
    (entry : Option Nat)
    (hself : entry = some l ↔ was ∧ ¬closed) :
    (∀ l', (if attached ∧ (if was ∧ ¬zero then none else entry) = none then some l
        else if was ∧ ¬zero then none else entry) = some l' ↔
          if l' = l then attached ∧ ¬closed else entry = some l') ↔
      if attached then
        if closed then entry ≠ none ∧ (was → zero) else ∀ l', entry = some l' → l' = l
      else was → if zero then entry ≠ some l else ∀ l', entry = some l' → l' = l := by
  cases entry with
  | none =>
      by_cases hattached : attached
      · by_cases hclosed : closed
        · simp [hattached, hclosed]
        · simp [hattached, hclosed, eq_comm]
      · simp [hattached]
  | some e =>
      by_cases he : e = l
      · subst he
        obtain ⟨hwas, hclosed⟩ := hself.mp rfl
        by_cases hzero : zero
        · by_cases hattached : attached
          · simp [hwas, hzero, hclosed, hattached, eq_comm]
          · simp [hwas, hzero, hattached]
        · by_cases hattached : attached
          · simp [hwas, hzero, hclosed, hattached, eq_comm]
          · simp [hwas, hzero, hattached, eq_comm]
      · have hgone : ¬(was ∧ ¬closed) := fun hself' => he (Option.some.inj (hself.mpr hself'))
        by_cases hremoved : was ∧ ¬zero
        · have hclosed : closed := not_not.mp fun hclosed => hgone ⟨hremoved.1, hclosed⟩
          rw [if_pos hremoved]
          refine iff_of_false (fun h => ?_) (fun h => ?_)
          · have hentry := h e
            by_cases hattached : attached
            · simp [hattached, he, Ne.symm he] at hentry
            · simp [hattached, he] at hentry
          · by_cases hattached : attached
            · rw [if_pos hattached, if_pos hclosed] at h
              exact hremoved.2 (h.2 hremoved.1)
            · rw [if_neg hattached] at h
              have halone := h hremoved.1
              rw [if_neg hremoved.2] at halone
              exact he (halone e rfl)
        · rw [if_neg hremoved]
          have hzero : was → zero := fun hwas => not_not.mp fun hzero => hremoved ⟨hwas, hzero⟩
          by_cases hattached : attached
          · by_cases hclosed : closed
            · grind
            · grind
          · grind

theorem tracks_attachManager_iff
    (h : w.Tracks m)
    {l : Nat}
    (hused : w.used l)
    (manager : Option M) :
    (w.attachManager l manager).Tracks m ↔ w.Keeps m (.attachManager l manager) := by
  rw [tracks_attachManager_iff_entry h, links_attachManager, links_removeLink]
  have hkeeps : w.Keeps m (.attachManager l manager) ↔
      if manager = some m then
        if w.socket l = .closed then
          w.links m (w.key l) ≠ none ∧ (w.manager l = some m → w.key l = 0)
        else ∀ l', w.links m (w.key l) = some l' → l' = l
      else
        w.manager l = some m →
          if w.key l = 0 then w.links m (w.key l) ≠ some l
          else ∀ l', w.links m (w.key l) = some l' → l' = l := by
    simp only [Keeps, Alone, hused, forall_const]
    by_cases hzero : w.key l = 0
    · simp only [hzero]
    · simp only [hzero, if_false]
  rw [hkeeps, ← entry_iff_keeps _ (h.entry_iff l)]
  simp only [true_and]

/-- OnError keeps the map right unless the manager of the link has it and does not remove
its entry. -/
theorem tracks_onError_iff
    (h : w.Tracks m)
    {l : Nat}
    (hused : w.used l)
    (throws : Bool) :
    (w.onError l throws).Tracks m ↔ w.Keeps m (.onError l throws) := by
  simp only [Keeps, hused, forall_const]
  by_cases hopen : w.socket l = .open
  swap
  · have hsame : w.onError l throws = w := by
      simp [onError, hopen]
    rw [hsame]
    exact iff_of_true h fun hopen' => absurd hopen' hopen
  obtain ⟨-, hkeys, hsockets, hmanagers, hlinks⟩ := onError_open w l m hopen throws
  have hentry := h.entry_iff l
  have hothers : ∀ key l', ((w.onError l throws).manager l' = some m ∧
      (w.onError l throws).key l' = key ∧ (w.onError l throws).socket l' ≠ .closed) ↔
        l' ≠ l ∧ w.links m key = some l' := by
    intro key l'
    rw [hkeys, hsockets]
    by_cases hl : l' = l
    · subst hl
      simp
    · rw [hmanagers l' hl, Function.update_of_ne hl, ← find, h key l']
      simp [hl]
  constructor
  · intro htracks _ hmanager
    -- the entry of the link is gone
    have hgone : (w.onError l throws).links m (w.key l) ≠ some l := by
      intro hlink
      exact ((hothers _ _).mp ((htracks _ _).mp hlink)).1 rfl
    rw [hlinks, hentry.mpr ⟨hmanager, by simp [hopen]⟩] at hgone
    by_contra hkept
    refine hgone (if_neg ?_)
    rintro ⟨-, hthrows, -, hne⟩
    exact hkept ⟨hthrows, hne⟩
  · intro hkeeps key l'
    rw [hothers, find, hlinks]
    by_cases hmanager : w.manager l = some m
    · obtain ⟨hthrows, hne⟩ := hkeeps hopen hmanager
      by_cases hkey : key = w.key l
      · have hself := hentry.mpr ⟨hmanager, by simp [hopen]⟩
        subst hkey
        rw [hself]
        simp [hmanager, hthrows, hne, eq_comm]
      · rw [if_neg (fun hx => hkey hx.2.2.1)]
        refine ⟨fun hlink => ⟨?_, hlink⟩, And.right⟩
        rintro rfl
        exact hkey ((h key l').mp hlink).2.1.symm
    · rw [if_neg (fun hx => hmanager hx.1)]
      refine ⟨fun hlink => ⟨?_, hlink⟩, And.right⟩
      rintro rfl
      exact hmanager ((h key l').mp hlink).1

/-- What a run keeps: the map is right, and it has no link that is not used. -/
structure Registered (m : M) (w : Registry M) : Prop where
  tracks : w.Tracks m
  used : ∀ key l, w.links m key = some l → w.used l

omit [DecidableEq M] in
theorem registered_initial
    (m : M) :
    (initial : Registry M).Registered m where
  tracks _ _ := by
    simp [find, initial]
  used _ _ hlink := by
    cases hlink

omit [DecidableEq M] in
/-- A link that is handed out is in no map and attached to none. -/
theorem Registered.tracks_create
    (h : w.Registered m)
    {l : Nat}
    (hfree : w.used l = false) :
    (w.create l).Tracks m := by
  intro key l'
  refine (h.tracks key l').trans ?_
  by_cases hl : l' = l
  · subst hl
    have hnone : ¬(w.manager l' = some m ∧ w.key l' = key ∧ w.socket l' ≠ .closed) := by
      intro hentry
      have hlink := (h.tracks key l').mpr hentry
      rw [h.used key l' hlink] at hfree
      cases hfree
    simp [hnone, create]
  · simp [hl, create]

omit [DecidableEq M] in
theorem Tracks.open
    (h : w.Tracks m)
    {l : Nat}
    (hfresh : w.socket l = .fresh) :
    Tracks m { w with socket := Function.update w.socket l .open } := by
  intro key l'
  refine (h key l').trans ?_
  by_cases hl : l' = l
  · subst hl
    simp [hfresh]
  · simp [hl]

variable [Fintype M]

/-- The map of a manager is right behind a step exactly if the step keeps it. -/
theorem Registered.tracks_step_iff
    (h : w.Registered m)
    (step : Step M) :
    (∀ w', w.step step = some w' → w'.Tracks m) ↔ w.Keeps m step := by
  cases step with
  | create l =>
      refine iff_of_true (fun w' hstep => ?_) trivial
      simp only [Registry.step] at hstep
      split at hstep
      · cases hstep
      · rename_i hfree
        cases hstep
        exact h.tracks_create (Bool.eq_false_of_not_eq_true hfree)
  | «open» l =>
      refine iff_of_true (fun w' hstep => ?_) trivial
      simp only [Registry.step] at hstep
      split at hstep
      · rename_i hopens
        cases hstep
        exact h.tracks.open hopens.2
      · cases hstep
  | attachManager l manager =>
      simp only [Registry.step]
      by_cases hused : w.used l
      · rw [← tracks_attachManager_iff h.tracks hused]
        simp [hused]
      · simp [hused, Keeps]
  | onError l throws =>
      simp only [Registry.step]
      by_cases hused : w.used l
      · rw [← tracks_onError_iff h.tracks hused]
        simp [hused]
      · simp [hused, Keeps]
  | find m' key =>
      refine iff_of_true (fun w' hstep => ?_) trivial
      cases hstep
      exact h.tracks
  | release l =>
      refine iff_of_true (fun w' hstep => ?_) trivial
      simp only [Registry.step] at hstep
      split at hstep
      · cases hstep
      · cases hstep
        exact h.tracks

/-- A step leaves no entry of a link that is not used. -/
theorem Registered.used_step
    (h : w.Registered m)
    {step : Step M} {w' : Registry M}
    (hstep : w.step step = some w') :
    ∀ key l, w'.links m key = some l → w'.used l := by
  intro key l hlink
  cases step with
  | create l' =>
      simp only [Registry.step] at hstep
      split at hstep
      · cases hstep
      · cases hstep
        by_cases hl : l = l'
        · simp [create, hl]
        · simpa [create, hl] using h.used key l hlink
  | «open» l' =>
      simp only [Registry.step] at hstep
      split at hstep
      · cases hstep
        exact h.used key l hlink
      · cases hstep
  | attachManager l' manager =>
      simp only [Registry.step] at hstep
      split at hstep
      · rename_i hused
        cases hstep
        rw [links_attachManager, links_removeLink] at hlink
        rw [attachManager_eq]
        by_cases hl : l = l'
        · rw [hl]
          exact hused
        · refine h.used key l ?_
          grind
      · cases hstep
  | onError l' throws =>
      simp only [Registry.step] at hstep
      split at hstep
      · cases hstep
        by_cases hopen : w.socket l' = .open
        · obtain ⟨husedEq, -, -, -, hlinks⟩ := onError_open w l' m hopen throws
          rw [husedEq]
          rw [hlinks] at hlink
          split at hlink
          · cases hlink
          · exact h.used key l hlink
        · have hsame : w.onError l' throws = w := by
            simp [onError, hopen]
          rw [hsame] at hlink ⊢
          exact h.used key l hlink
      · cases hstep
  | find m' key' =>
      cases hstep
      exact h.used key l hlink
  | release l' =>
      simp only [Registry.step] at hstep
      split at hstep
      · cases hstep
      · rename_i hgone
        cases hstep
        have hl : l ≠ l' := by
          rintro rfl
          refine hgone ⟨m, ?_⟩
          rw [((h.tracks key l).mp hlink).2.1]
          exact hlink
        simpa [hl] using h.used key l hlink

theorem Registered.step
    (h : w.Registered m)
    {step : Step M} {w' : Registry M}
    (hkeeps : w.Keeps m step)
    (hstep : w.step step = some w') :
    w'.Registered m :=
  ⟨(h.tracks_step_iff step).mpr hkeeps w' hstep, h.used_step hstep⟩

end Steps

variable [Fintype M]

/-- In every run the map of the manager has exactly the links that are attached to it and
not closed, under their keys, if and only if every step of the run keeps it so. -/
theorem registry_tracks_iff
    (m : M) (steps : List (Step M)) :
    Transition.Always step (Tracks m) initial steps ↔
      Transition.Along step (Keeps m) initial steps :=
  Transition.always_iff_along (Registered m)
    (fun _ h => h.tracks)
    (fun _ step h => h.tracks_step_iff step)
    (fun _ _ _ h hkeeps hstep => h.step hkeeps hstep)
    (registered_initial m)

/-- OnClose throws for the first link. -/
def thrownOnClose : List (Step Unit) :=
  [.create 0, .open 0, .attachManager 0 (some ()), .onError 0 true]

/-- Its entry stays. -/
theorem registry_not_tracks :
    ¬∀ steps : List (Step Unit), Transition.Always step (Tracks ()) initial steps := by
  intro h
  obtain ⟨w, hrun, hlink, hclosed⟩ :
      ∃ w, Transition.run step initial thrownOnClose = some w ∧
        w.find () 1 = some 0 ∧ w.socket 0 = .closed := by
    refine ⟨_, rfl, ?_, ?_⟩
    · decide
    · decide
  exact ((h thrownOnClose _ List.prefix_rfl w hrun 1 0).mp hlink).2.2 hclosed

end Registry

end Network
end Gamnet
