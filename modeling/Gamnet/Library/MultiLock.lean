import Gamnet.Lib.Transition
import Mathlib.Data.Fintype.EquivFin
import Mathlib.Logic.Function.Basic
import Mathlib.Order.WellFounded

/-!
# Several locks at once

A MultiLock keeps the addresses of its arguments in an ordered set. Its constructor takes the
locks in the order of that set, and its destructor releases them in the same order.

In every run of any number of threads a lock is held by at most one of them, no thread waits
for a lock that it holds, and some thread in a MultiLock can go on (`multiLock_progress`): the
holder of a lock that is waited for waits for a lock behind it, if it waits at all.
-/

namespace Gamnet

variable {LOCK THREAD : Type}

section Ordered

variable [LinearOrder LOCK]

/-- The insertion into an ordered set, which leaves out what is there already. -/
def insertLock (lock : LOCK) : List LOCK → List LOCK
  | [] => [lock]
  | other :: locks =>
      if lock < other then lock :: other :: locks
      else if other < lock then other :: insertLock lock locks
      else other :: locks

/-- Lock: the set of the arguments. -/
def setLocks (locks : List LOCK) : List LOCK :=
  locks.foldl (fun set lock => insertLock lock set) []

variable {lock : LOCK} {set locks : List LOCK}

theorem mem_insertLock
    {other : LOCK} :
    other ∈ insertLock lock set ↔ other = lock ∨ other ∈ set := by
  induction set with
  | nil =>
      simp [insertLock]
  | cons first set ih =>
      unfold insertLock
      split_ifs with hlt hgt
      · simp
      · rw [List.mem_cons, ih, List.mem_cons]
        exact or_left_comm
      · have heq : lock = first := le_antisymm (not_lt.mp hgt) (not_lt.mp hlt)
        rw [heq, List.mem_cons, or_self_left]

theorem insertLock_pairwise
    (hset : set.Pairwise (· < ·)) :
    (insertLock lock set).Pairwise (· < ·) := by
  induction set with
  | nil =>
      exact List.pairwise_singleton _ _
  | cons first set ih =>
      obtain ⟨hfirst, hrest⟩ := List.pairwise_cons.mp hset
      unfold insertLock
      split_ifs with hlt hgt
      · refine List.pairwise_cons.mpr ⟨?_, hset⟩
        intro other hother
        rcases List.mem_cons.mp hother with rfl | hother
        · exact hlt
        · exact lt_trans hlt (hfirst other hother)
      · refine List.pairwise_cons.mpr ⟨?_, ih hrest⟩
        intro other hother
        rcases mem_insertLock.mp hother with rfl | hother
        · exact hgt
        · exact hfirst other hother
      · exact hset

/-- The set is in ascending order of the addresses. -/
theorem setLocks_pairwise
    (locks : List LOCK) :
    (setLocks locks).Pairwise (· < ·) := by
  have h : ∀ set : List LOCK, set.Pairwise (· < ·) →
      (locks.foldl (fun set lock => insertLock lock set) set).Pairwise (· < ·) := by
    induction locks with
    | nil =>
        exact fun set hset => hset
    | cons lock locks ih =>
        exact fun set hset => ih _ (insertLock_pairwise hset)
  exact h [] List.Pairwise.nil

end Ordered

/-- Where a thread is: outside, in the loop of the constructor with the locks that it has
taken and those that it has not, between constructor and destructor, or in the loop of the
destructor with the locks that it has not released. -/
inductive Phase (LOCK : Type)
  | outside
  | constructing (taken rest : List LOCK)
  | inside (setLocks : List LOCK)
  | destroying (rest : List LOCK)

namespace Phase

/-- The locks of setLocks that are not released. -/
def ahead : Phase LOCK → List LOCK
  | outside => []
  | constructing taken rest => taken ++ rest
  | inside setLocks => setLocks
  | destroying rest => rest

/-- The locks that a thread holds. -/
def held : Phase LOCK → List LOCK
  | outside => []
  | constructing taken _ => taken
  | inside setLocks => setLocks
  | destroying rest => rest

/-- The thread is inside a MultiLock constructor, critical section or destructor. -/
def Active : Phase LOCK → Prop
  | outside => False
  | _ => True

theorem active_of_mem_held
    {lock : LOCK} {phase : Phase LOCK}
    (hheld : lock ∈ phase.held) :
    phase.Active := by
  cases phase with
  | outside =>
      cases hheld
  | _ =>
      trivial

end Phase

/-- The locks that are locked, and where the threads are. -/
structure Locking (LOCK THREAD : Type) where
  locked : LOCK → Bool
  phase : THREAD → Phase LOCK

/-- The steps of a thread. -/
inductive LockStep (LOCK : Type)
  | construct (locks : List LOCK)
  | lock
  | constructed
  | destroy
  | unlock
  | destroyed

namespace Locking

/-- No lock is locked, and every thread is outside. -/
def initial : Locking LOCK THREAD where
  locked := fun _ => false
  phase := fun _ => .outside

variable [DecidableEq THREAD]

/-- The thread goes on to another phase. -/
def enter (s : Locking LOCK THREAD) (t : THREAD) (phase : Phase LOCK) : Locking LOCK THREAD :=
  { s with phase := Function.update s.phase t phase }

section Enter

variable {s : Locking LOCK THREAD} {t : THREAD}

theorem enter_phase
    (phase : Phase LOCK) (t' : THREAD) :
    (s.enter t phase).phase t' = if t' = t then phase else s.phase t' :=
  Function.update_apply ..

/-- The locks that a thread holds after it has changed its phase. -/
theorem mem_held_enter
    {phase : Phase LOCK} {lock : LOCK} {t' : THREAD} :
    lock ∈ ((s.enter t phase).phase t').held ↔
      if t' = t then lock ∈ phase.held else lock ∈ (s.phase t').held := by
  rw [enter_phase]
  split_ifs
  · exact Iff.rfl
  · exact Iff.rfl

end Enter

variable [LinearOrder LOCK]

/-- A lock is locked or unlocked. -/
def mark (s : Locking LOCK THREAD) (lock : LOCK) (locked : Bool) : Locking LOCK THREAD :=
  { s with locked := Function.update s.locked lock locked }

/-- One step of one thread. A lock that is locked makes its thread wait, whoever holds it. -/
def step (s : Locking LOCK THREAD) : THREAD × LockStep LOCK → Option (Locking LOCK THREAD)
  | (t, .construct locks) =>
      match s.phase t with
      | .outside => some (s.enter t (.constructing [] (setLocks locks)))
      | _ => none
  | (t, .lock) =>
      match s.phase t with
      | .constructing taken (lock :: rest) =>
          if s.locked lock then none
          else some ((s.mark lock true).enter t (.constructing (taken ++ [lock]) rest))
      | _ => none
  | (t, .constructed) =>
      match s.phase t with
      | .constructing taken [] => some (s.enter t (.inside taken))
      | _ => none
  | (t, .destroy) =>
      match s.phase t with
      | .inside setLocks => some (s.enter t (.destroying setLocks))
      | _ => none
  | (t, .unlock) =>
      match s.phase t with
      | .destroying (lock :: rest) => some ((s.mark lock false).enter t (.destroying rest))
      | _ => none
  | (t, .destroyed) =>
      match s.phase t with
      | .destroying [] => some (s.enter t .outside)
      | _ => none

/-- The thread waits for the lock. -/
def Waits (s : Locking LOCK THREAD) (t : THREAD) (lock : LOCK) : Prop :=
  ∃ taken rest, s.phase t = .constructing taken (lock :: rest)

/-- The thread is in a MultiLock and can make a step. -/
def GoesOn (s : Locking LOCK THREAD) (t : THREAD) : Prop :=
  (s.phase t).Active ∧ ∃ action, (s.step (t, action)).isSome

/-- Every thread has its locks in the order of their addresses, the locked ones are those that
are held, and no two threads hold one of them. -/
structure Exclusive (s : Locking LOCK THREAD) : Prop where
  ascending : ∀ t, (s.phase t).ahead.Pairwise (· < ·)
  locked_iff : ∀ lock, s.locked lock = true ↔ ∃ t, lock ∈ (s.phase t).held
  unique : ∀ lock t t', lock ∈ (s.phase t).held → lock ∈ (s.phase t').held → t = t'

section Steps

variable {s : Locking LOCK THREAD} {t : THREAD}

omit [DecidableEq THREAD] in
theorem exclusive_initial :
    (initial : Locking LOCK THREAD).Exclusive where
  ascending _ := List.Pairwise.nil
  locked_iff lock := by
    simp [initial, Phase.held]
  unique lock t t' h := by
    cases h

theorem ascending_enter
    {phase : Phase LOCK}
    (h : ∀ t, (s.phase t).ahead.Pairwise (· < ·))
    (hphase : phase.ahead.Pairwise (· < ·))
    (t' : THREAD) :
    ((s.enter t phase).phase t').ahead.Pairwise (· < ·) := by
  rw [enter_phase]
  split_ifs
  · exact hphase
  · exact h t'

/-- A step that neither takes nor releases a lock. -/
theorem Exclusive.enter
    (h : s.Exclusive)
    {phase : Phase LOCK}
    (hahead : phase.ahead.Pairwise (· < ·))
    (hheld : phase.held = (s.phase t).held) :
    (s.enter t phase).Exclusive := by
  have hsame : ∀ lock t', lock ∈ ((s.enter t phase).phase t').held ↔
      lock ∈ (s.phase t').held := by
    intro lock t'
    rw [mem_held_enter]
    split_ifs with ht
    · rw [hheld, ht]
    · exact Iff.rfl
  refine ⟨ascending_enter h.ascending hahead, ?_, ?_⟩
  · intro lock
    simp only [hsame]
    exact h.locked_iff lock
  · intro lock t₁ t₂ h₁ h₂
    exact h.unique lock t₁ t₂ ((hsame lock t₁).mp h₁) ((hsame lock t₂).mp h₂)

/-- A lock that is not locked is taken. -/
theorem Exclusive.lock
    (h : s.Exclusive)
    {taken rest : List LOCK} {lock : LOCK}
    (hphase : s.phase t = .constructing taken (lock :: rest))
    (hfree : s.locked lock = false) :
    ((s.mark lock true).enter t (.constructing (taken ++ [lock]) rest)).Exclusive := by
  have hnobody : ∀ t', lock ∉ (s.phase t').held := by
    intro t' hheld
    have hlocked := (h.locked_iff lock).mpr ⟨t', hheld⟩
    rw [hfree] at hlocked
    cases hlocked
  have hmem : ∀ other t', other ∈
      (((s.mark lock true).enter t (.constructing (taken ++ [lock]) rest)).phase t').held ↔
        other ∈ (s.phase t').held ∨ t' = t ∧ other = lock := by
    intro other t'
    rw [mem_held_enter]
    split_ifs with ht
    · simp [ht, hphase, Phase.held]
    · simp [ht, mark]
  refine ⟨ascending_enter h.ascending ?_, ?_, ?_⟩
  · have hahead := h.ascending t
    rw [hphase] at hahead
    simpa [Phase.ahead] using hahead
  · intro other
    simp only [hmem]
    change Function.update s.locked lock true other = true ↔ _
    by_cases heq : other = lock
    · rw [heq, Function.update_self]
      exact iff_of_true rfl ⟨t, .inr ⟨rfl, rfl⟩⟩
    · rw [Function.update_of_ne heq, h.locked_iff]
      simp [heq]
  · intro other t₁ t₂ h₁ h₂
    rw [hmem] at h₁ h₂
    rcases h₁ with h₁ | ⟨rfl, rfl⟩
    · rcases h₂ with h₂ | ⟨rfl, rfl⟩
      · exact h.unique other t₁ t₂ h₁ h₂
      · exact absurd h₁ (hnobody t₁)
    · rcases h₂ with h₂ | ⟨rfl, -⟩
      · exact absurd h₂ (hnobody t₂)
      · rfl

/-- A lock that is held is released. -/
theorem Exclusive.unlock
    (h : s.Exclusive)
    {rest : List LOCK} {lock : LOCK}
    (hphase : s.phase t = .destroying (lock :: rest)) :
    ((s.mark lock false).enter t (.destroying rest)).Exclusive := by
  have hahead : (lock :: rest).Pairwise (· < ·) := by
    have hahead := h.ascending t
    rw [hphase] at hahead
    exact hahead
  obtain ⟨hfirst, hrest⟩ := List.pairwise_cons.mp hahead
  have hholds : lock ∈ (s.phase t).held := by
    rw [hphase]
    exact List.mem_cons_self
  have hmem : ∀ other t', other ∈
      (((s.mark lock false).enter t (.destroying rest)).phase t').held ↔
        other ∈ (s.phase t').held ∧ other ≠ lock := by
    intro other t'
    rw [mem_held_enter]
    split_ifs with ht
    · rw [ht, hphase]
      simp only [Phase.held, List.mem_cons]
      constructor
      · intro hother
        exact ⟨.inr hother, (hfirst other hother).ne'⟩
      · rintro ⟨hother, hne⟩
        exact hother.resolve_left hne
    · constructor
      · intro hother
        refine ⟨hother, ?_⟩
        rintro rfl
        exact ht (h.unique other t' t hother hholds)
      · exact And.left
  refine ⟨ascending_enter h.ascending hrest, ?_, ?_⟩
  · intro other
    simp only [hmem]
    change Function.update s.locked lock false other = true ↔ _
    by_cases heq : other = lock
    · rw [heq, Function.update_self]
      simp
    · rw [Function.update_of_ne heq, h.locked_iff]
      simp [heq]
  · intro other t₁ t₂ h₁ h₂
    exact h.unique other t₁ t₂ ((hmem other t₁).mp h₁).1 ((hmem other t₂).mp h₂).1

theorem Exclusive.step
    (h : s.Exclusive)
    {s' : Locking LOCK THREAD} {action : LockStep LOCK}
    (hstep : s.step (t, action) = some s') :
    s'.Exclusive := by
  have hahead := h.ascending t
  cases action with
  | construct locks =>
      simp only [Locking.step] at hstep
      split at hstep
      · rename_i hphase
        cases hstep
        exact h.enter (setLocks_pairwise locks) (by rw [hphase]; rfl)
      · cases hstep
  | lock =>
      simp only [Locking.step] at hstep
      split at hstep
      · rename_i hphase
        split_ifs at hstep with hlocked
        cases hstep
        exact h.lock hphase (Bool.not_eq_true _ ▸ hlocked)
      · cases hstep
  | constructed =>
      simp only [Locking.step] at hstep
      split at hstep
      · rename_i taken hphase
        cases hstep
        rw [hphase] at hahead
        exact h.enter (by simpa [Phase.ahead] using hahead) (by rw [hphase]; rfl)
      · cases hstep
  | destroy =>
      simp only [Locking.step] at hstep
      split at hstep
      · rename_i setLocks hphase
        cases hstep
        rw [hphase] at hahead
        exact h.enter hahead (by rw [hphase]; rfl)
      · cases hstep
  | unlock =>
      simp only [Locking.step] at hstep
      split at hstep
      · rename_i hphase
        cases hstep
        exact h.unlock hphase
      · cases hstep
  | destroyed =>
      simp only [Locking.step] at hstep
      split at hstep
      · rename_i hphase
        cases hstep
        exact h.enter List.Pairwise.nil (by rw [hphase]; rfl)
      · cases hstep

theorem exclusive_run
    {actions : List (THREAD × LockStep LOCK)}
    (hrun : Transition.run step initial actions = some s) :
    s.Exclusive := by
  refine Transition.run_invariant Exclusive ?_ exclusive_initial hrun
  rintro s₁ ⟨t, action⟩ s₂ h hstep
  exact h.step hstep

end Steps

section Progress

variable {s : Locking LOCK THREAD} {t : THREAD}

omit [DecidableEq THREAD] in
/-- A thread that waits for a lock has only locks in front of it. -/
theorem Exclusive.lt_of_waits
    (h : s.Exclusive)
    {lock other : LOCK}
    (hwaits : s.Waits t lock)
    (hheld : other ∈ (s.phase t).held) :
    other < lock := by
  obtain ⟨taken, rest, hphase⟩ := hwaits
  have hahead := h.ascending t
  rw [hphase] at hahead hheld
  exact (List.pairwise_append.mp hahead).2.2 other hheld lock List.mem_cons_self

/-- A thread in a MultiLock goes on, or it waits for a lock that is locked. -/
theorem goesOn_or_waits
    (hactive : (s.phase t).Active) :
    s.GoesOn t ∨ ∃ lock, s.Waits t lock ∧ s.locked lock = true := by
  cases hphase : s.phase t with
  | outside =>
      rw [hphase] at hactive
      exact hactive.elim
  | constructing taken rest =>
      cases rest with
      | nil =>
          exact .inl ⟨hactive, .constructed, by simp [step, hphase]⟩
      | cons lock rest =>
          by_cases hlocked : s.locked lock = true
          · exact .inr ⟨lock, ⟨taken, rest, hphase⟩, hlocked⟩
          · exact .inl ⟨hactive, .lock, by simp [step, hphase, hlocked]⟩
  | inside setLocks =>
      exact .inl ⟨hactive, .destroy, by simp [step, hphase]⟩
  | destroying rest =>
      cases rest with
      | nil =>
          exact .inl ⟨hactive, .destroyed, by simp [step, hphase]⟩
      | cons lock rest =>
          exact .inl ⟨hactive, .unlock, by simp [step, hphase]⟩

/-- Behind a locked lock there is a thread that goes on. The induction is on the locks behind
it: its holder waits for one of those, if it waits. -/
theorem Exclusive.exists_goesOn
    [Finite LOCK]
    (h : s.Exclusive)
    (lock : LOCK)
    (hlocked : s.locked lock = true) :
    ∃ t, s.GoesOn t := by
  induction lock using WellFoundedGT.induction with
  | ind lock ih =>
      obtain ⟨t, hheld⟩ := (h.locked_iff lock).mp hlocked
      rcases goesOn_or_waits (Phase.active_of_mem_held hheld) with hgoes | ⟨other, hwaits, hother⟩
      · exact ⟨t, hgoes⟩
      · exact ih other (h.lt_of_waits hwaits hheld) hother

end Progress

/-- In every state that threads with MultiLocks reach, some thread in a MultiLock can go on if
there is one, no two threads hold a lock, and none waits for a lock that it holds. -/
theorem multiLock_progress
    [Finite LOCK]
    (actions : List (THREAD × LockStep LOCK))
    (s : Locking LOCK THREAD)
    (hrun : Transition.run step initial actions = some s) :
    ((∃ t, (s.phase t).Active) → ∃ t, s.GoesOn t) ∧
      (∀ lock t t', lock ∈ (s.phase t).held → lock ∈ (s.phase t').held → t = t') ∧
      ∀ lock t, s.Waits t lock → lock ∉ (s.phase t).held := by
  have h := exclusive_run hrun
  refine ⟨?_, h.unique, ?_⟩
  · rintro ⟨t, hactive⟩
    rcases goesOn_or_waits hactive with hgoes | ⟨lock, -, hlocked⟩
    · exact ⟨t, hgoes⟩
    · exact h.exists_goesOn lock hlocked
  · intro lock t hwaits hheld
    exact lt_irrefl lock (h.lt_of_waits hwaits hheld)

/-- One thread has taken the first of two locks, and another one waits for it. -/
theorem multiLock_progress_two :
    ∃ s : Locking (Fin 2) Bool,
      Transition.run step initial
          [(false, .construct [1, 0, 1]), (true, .construct [0]), (false, .lock)] = some s ∧
        ((∃ t, (s.phase t).Active) → ∃ t, s.GoesOn t) ∧
        (∀ lock t t', lock ∈ (s.phase t).held → lock ∈ (s.phase t').held → t = t') ∧
        ∀ lock t, s.Waits t lock → lock ∉ (s.phase t).held :=
  ⟨_, rfl, multiLock_progress
    [(false, .construct [1, 0, 1]), (true, .construct [0]), (false, .lock)] _ rfl⟩

end Locking
end Gamnet
