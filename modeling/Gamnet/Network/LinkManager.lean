import Gamnet.Library.Pool
import Mathlib.Logic.Function.Basic

/-!
# The accept loop

A link manager accepts one connection after the other. Each call of Accept takes
a link from the pool and starts an async_accept with it; when the pool is empty
it stops the loop by a flag, and OnClose starts it again when it finds the flag
and a link in the pool.

A callback of the acceptor is divided where other threads can come in between:
its start, the call of Create, and, if that fails, the store of the flag. The
callback refers to its link until it ends. A link goes back to the pool at some
time after the last reference to it is gone.
-/

namespace Gamnet
namespace Network

abbrev LinkId : Type := Nat

/-- The fields of a link manager that the accept loop uses, the links that a
pending async_accept holds, and those of the callbacks that run: in front of
Create, and behind a Create that failed. A link is attached while its socket is
open. -/
structure Acceptor where
  pool : Pool
  isAcceptable : Bool
  accepting : List LinkId
  running : List LinkId
  refused : List LinkId
  attached : LinkId → Bool

namespace Acceptor

/-- Create and async_accept. -/
def asyncAccept (w : Acceptor) : Option Acceptor :=
  match w.pool.create with
  | none => none
  | some (l, pool) => some { w with pool := pool, accepting := w.accepting ++ [l] }

/-- Accept, called by a thread that holds the lock. -/
def accept (w : Acceptor) : Acceptor :=
  match w.asyncAccept with
  | none => { w with isAcceptable := false }
  | some w => w

/-- Listen. -/
def listen (maxSession : Nat) : Acceptor :=
  accept
    { pool := Pool.ofCapacity maxSession
      isAcceptable := true
      accepting := []
      running := []
      refused := []
      attached := fun _ => false }

/-- OnClose. -/
def onClose (w : Acceptor) : Acceptor :=
  if w.isAcceptable = false ∧ 0 < w.pool.available then
    accept { w with isAcceptable := true }
  else w

/-- Link::OnError. The OnClose of the class of the manager may throw before it
calls that of its base. -/
def onError (w : Acceptor) (l : LinkId) (throws : Bool) : Acceptor :=
  if w.attached l = false then w
  else
    let w := if throws then w else w.onClose
    { w with attached := Function.update w.attached l false }

/-- A shared pointer to the link is somewhere. -/
def Referenced (w : Acceptor) (l : LinkId) : Prop :=
  l ∈ w.accepting ∨ l ∈ w.running ∨ l ∈ w.refused ∨ w.attached l = true

instance (w : Acceptor) (l : LinkId) : Decidable (w.Referenced l) :=
  inferInstanceAs (Decidable (_ ∨ _ ∨ _ ∨ _))

/-- A link whose last reference is gone. -/
def Releasable (w : Acceptor) (l : LinkId) : Prop :=
  w.pool.InUse l ∧ ¬ w.Referenced l

instance (w : Acceptor) (l : LinkId) : Decidable (w.Releasable l) :=
  inferInstanceAs (Decidable (_ ∧ _))

/-- The steps of the accept loop. A completion tells whether the connection was
accepted and its link attached. -/
inductive Step
  | complete (l : LinkId) (attaches : Bool)
  | create (l : LinkId)
  | store (l : LinkId)
  | close (l : LinkId) (throws : Bool)
  | release (l : LinkId)

/-- The start of Callback_Accept. -/
def complete (w : Acceptor) (l : LinkId) (attaches : Bool) : Acceptor :=
  { w with
    accepting := w.accepting.erase l
    running := w.running ++ [l]
    attached := if attaches then Function.update w.attached l true else w.attached }

/-- The call of Accept in a callback, up to the test of what Create returned. -/
def callCreate (w : Acceptor) (l : LinkId) : Acceptor :=
  let w := { w with running := w.running.erase l }
  match w.asyncAccept with
  | none => { w with refused := w.refused ++ [l] }
  | some w => w

/-- One step. What is not possible changes nothing. -/
def step (w : Acceptor) : Step → Acceptor
  | .complete l attaches => if l ∈ w.accepting then w.complete l attaches else w
  | .create l => if l ∈ w.running then w.callCreate l else w
  | .store l =>
      if l ∈ w.refused then
        { w with isAcceptable := false, refused := w.refused.erase l }
      else w
  | .close l throws => w.onError l throws
  | .release l =>
      if h : w.Releasable l then { w with pool := w.pool.restitute l h.1 } else w

/-- A run: the steps in order. -/
def run (w : Acceptor) (steps : List Step) : Acceptor :=
  steps.foldl step w

/-- No callback is running. -/
def Idle (w : Acceptor) : Prop :=
  w.running = [] ∧ w.refused = []

/-- An async_accept is pending, or there is no link for one. -/
def Awake (w : Acceptor) : Prop :=
  w.accepting ≠ [] ∨ w.pool.create = none

/-- In every state of a run, up to its last one. -/
def EveryState (P : Acceptor → Prop) : Acceptor → List Step → Prop
  | w, [] => P w
  | w, a :: steps => P w ∧ EveryState P (w.step a) steps

/-- In every step of a run, with the state before it. -/
def EveryStep (P : Acceptor → Step → Prop) : Acceptor → List Step → Prop
  | _, [] => True
  | w, a :: steps => P w a ∧ EveryStep P (w.step a) steps

/-- The accept loop has one pending async_accept or one callback until it is
stopped. -/
def OneLoop (w : Acceptor) : Prop :=
  w.accepting.length + w.running.length + w.refused.length =
    if w.isAcceptable then 1 else 0

/-- A stopped loop finds no link. -/
def Starved (w : Acceptor) : Prop :=
  w.isAcceptable = false → w.pool.create = none

/-- What a step must not do: give a link back while the loop is stopped, and
stop the loop behind a link that came back. -/
def Keeps (w : Acceptor) : Step → Prop
  | .release l => w.Releasable l → w.isAcceptable = true
  | .store l => l ∈ w.refused → w.pool.create = none
  | _ => True

section Loop

variable {w : Acceptor}

theorem asyncAccept_eq
    {w' : Acceptor}
    (h : w.asyncAccept = some w') :
    ∃ l pool, w.pool.create = some (l, pool) ∧
      w' = { w with pool := pool, accepting := w.accepting ++ [l] } := by
  unfold asyncAccept at h
  split at h
  · cases h
  · rename_i l pool hcreate
    exact ⟨l, pool, hcreate, (Option.some.inj h).symm⟩

theorem asyncAccept_eq_none_iff
    (w : Acceptor) :
    w.asyncAccept = none ↔ w.pool.create = none := by
  unfold asyncAccept
  split
  · rename_i hcreate
    simp [hcreate]
  · rename_i hcreate
    simp [hcreate]

/-- A call of Accept keeps the loop going or stops it. -/
theorem accept_cases
    (w : Acceptor) :
    (w.pool.create = none ∧ w.accept = { w with isAcceptable := false }) ∨
    (∃ l pool, w.accept = { w with pool := pool, accepting := w.accepting ++ [l] }) := by
  unfold accept
  cases hasync : w.asyncAccept with
  | none =>
      exact Or.inl ⟨(asyncAccept_eq_none_iff w).mp hasync, rfl⟩
  | some w' =>
      obtain ⟨l, pool, _, rfl⟩ := asyncAccept_eq hasync
      exact Or.inr ⟨l, pool, rfl⟩

/-- What OnClose does: nothing, or it starts a loop that was stopped. -/
theorem onClose_cases
    (w : Acceptor) :
    w.onClose = w ∨
    (w.isAcceptable = false ∧ w.pool.create ≠ none ∧
      ∃ l pool, w.onClose =
        { w with isAcceptable := true, pool := pool, accepting := w.accepting ++ [l] }) := by
  unfold onClose
  split
  · rename_i hstopped
    have hsome : w.pool.create ≠ none := by
      rw [Ne, Pool.create_eq_none_iff]
      exact Nat.ne_of_gt hstopped.2
    rcases accept_cases { w with isAcceptable := true } with ⟨hnone, _⟩ | ⟨l, pool, haccept⟩
    · exact absurd hnone hsome
    · exact Or.inr ⟨hstopped.1, hsome, l, pool, haccept⟩
  · exact Or.inl rfl

theorem oneLoop_onClose
    (h : w.OneLoop) :
    w.onClose.OneLoop := by
  rcases onClose_cases w with hsame | ⟨hstopped, _, l, pool, hstart⟩
  · rw [hsame]
    exact h
  · unfold OneLoop at h ⊢
    rw [hstart]
    simp only [hstopped, Bool.false_eq_true, if_false] at h
    simp only [List.length_append, List.length_singleton, if_true]
    omega

/-- Every step leaves one loop, or none. -/
theorem oneLoop_step
    (h : w.OneLoop)
    (a : Step) :
    (w.step a).OneLoop := by
  cases a with
  | complete l attaches =>
      simp only [step]
      split
      · rename_i hl
        have hpos := List.length_pos_of_mem hl
        unfold OneLoop complete at *
        simp only [List.length_erase_of_mem hl, List.length_append, List.length_singleton]
        omega
      · exact h
  | create l =>
      simp only [step]
      split
      · rename_i hl
        have hpos := List.length_pos_of_mem hl
        have hlen := List.length_erase_of_mem hl
        simp only [callCreate]
        split
        · unfold OneLoop at *
          simp only [hlen, List.length_append, List.length_singleton]
          omega
        · rename_i w' hasync
          obtain ⟨k, pool, _, rfl⟩ := asyncAccept_eq hasync
          unfold OneLoop at *
          simp only [hlen, List.length_append, List.length_singleton]
          omega
      · exact h
  | store l =>
      simp only [step]
      split
      · rename_i hl
        have hpos := List.length_pos_of_mem hl
        unfold OneLoop at *
        simp only [List.length_erase_of_mem hl, Bool.false_eq_true, if_false]
        split at h
        · omega
        · omega
      · exact h
  | close l throws =>
      simp only [step, onError]
      split
      · exact h
      · cases throws with
        | true =>
            exact h
        | false =>
            exact oneLoop_onClose h
  | release l =>
      simp only [step]
      split
      · exact h
      · exact h

theorem oneLoop_listen
    (maxSession : Nat) :
    (listen maxSession).OneLoop := by
  unfold listen
  rcases accept_cases
      { pool := Pool.ofCapacity maxSession, isAcceptable := true, accepting := [],
        running := [], refused := [], attached := fun _ => false } with
    ⟨_, haccept⟩ | ⟨l, pool, haccept⟩
  · rw [haccept]
    rfl
  · rw [haccept]
    rfl

theorem starved_onClose
    (h : w.Starved) :
    w.onClose = w := by
  rcases onClose_cases w with hsame | ⟨hstopped, hsome, _⟩
  · exact hsame
  · exact absurd (h hstopped) hsome

/-- A step that keeps to the condition leaves a stopped loop without a link. -/
theorem starved_step
    (h : w.Starved)
    {a : Step}
    (hkeeps : w.Keeps a) :
    (w.step a).Starved := by
  cases a with
  | complete l attaches =>
      simp only [step]
      split
      · exact h
      · exact h
  | create l =>
      simp only [step]
      split
      · simp only [callCreate]
        split
        · exact h
        · rename_i w' hasync
          obtain ⟨k, pool, hcreate, rfl⟩ := asyncAccept_eq hasync
          intro hstopped
          have hnone := h hstopped
          rw [hnone] at hcreate
          cases hcreate
      · exact h
  | store l =>
      simp only [step]
      split
      · rename_i hl
        intro _
        exact hkeeps hl
      · exact h
  | close l throws =>
      simp only [step, onError]
      split
      · exact h
      · cases throws with
        | true =>
            exact h
        | false =>
            simp only [starved_onClose h]
            exact h
  | release l =>
      simp only [step]
      split
      · rename_i hrelease
        intro hstopped
        have hacceptable : w.isAcceptable = true := hkeeps hrelease
        have hstopped' : w.isAcceptable = false := hstopped
        rw [hacceptable] at hstopped'
        cases hstopped'
      · exact h

theorem starved_listen
    (maxSession : Nat) :
    (listen maxSession).Starved := by
  unfold listen
  rcases accept_cases
      { pool := Pool.ofCapacity maxSession, isAcceptable := true, accepting := [],
        running := [], refused := [], attached := fun _ => false } with
    ⟨hnone, haccept⟩ | ⟨l, pool, haccept⟩
  · rw [haccept]
    exact fun _ => hnone
  · rw [haccept]
    intro hstopped
    cases hstopped

/-- While no callback is running, a loop that is stopped is the only one that
can sleep. -/
theorem awake_of_starved
    (hloop : w.OneLoop)
    (hstarved : w.Starved)
    (hidle : w.Idle) :
    w.Awake := by
  cases hacceptable : w.isAcceptable with
  | false =>
      exact Or.inr (hstarved hacceptable)
  | true =>
      left
      intro haccepting
      unfold OneLoop at hloop
      rw [haccepting, hidle.1, hidle.2, hacceptable] at hloop
      cases hloop

/-- A step that does not keep to the condition leaves a loop that sleeps. -/
theorem sleeps_of_not_keeps
    (h : w.OneLoop)
    {a : Step}
    (hkeeps : ¬ w.Keeps a) :
    (w.step a).Idle ∧ ¬ (w.step a).Awake := by
  cases a with
  | complete l attaches =>
      exact absurd trivial hkeeps
  | create l =>
      exact absurd trivial hkeeps
  | close l throws =>
      exact absurd trivial hkeeps
  | store l =>
      simp only [Keeps, Classical.not_imp] at hkeeps
      obtain ⟨hl, hsome⟩ := hkeeps
      have hpos := List.length_pos_of_mem hl
      have hlen := List.length_erase_of_mem hl
      unfold OneLoop at h
      -- The callback that stores the flag is the whole loop.
      have hone : w.accepting.length = 0 ∧ w.running.length = 0 ∧ w.refused.length = 1 := by
        split at h
        · omega
        · omega
      simp only [List.length_eq_zero_iff] at hone
      have hrefused : w.refused.erase l = [] := by
        rw [← List.length_eq_zero_iff, hlen, hone.2.2]
      simp only [step, if_pos hl]
      refine ⟨⟨hone.2.1, hrefused⟩, ?_⟩
      rintro (haccepting | hnone)
      · exact haccepting hone.1
      · exact hsome hnone
  | release l =>
      simp only [Keeps, Classical.not_imp, Bool.not_eq_true] at hkeeps
      obtain ⟨hrelease, hstopped⟩ := hkeeps
      unfold OneLoop at h
      rw [hstopped] at h
      have hzero : w.accepting.length = 0 ∧ w.running.length = 0 ∧ w.refused.length = 0 := by
        simp only [Bool.false_eq_true, if_false] at h
        omega
      simp only [List.length_eq_zero_iff] at hzero
      obtain ⟨pool, hcreate⟩ := Pool.create_restitute hrelease.1
      simp only [step, dif_pos hrelease]
      refine ⟨hzero.2, ?_⟩
      rintro (haccepting | hnone)
      · exact haccepting hzero.1
      · rw [hcreate] at hnone
        cases hnone

end Loop

section Runs

variable {w : Acceptor}

theorem everyState_of_everyStep
    {steps : List Step}
    (hloop : w.OneLoop)
    (hstarved : w.Starved)
    (hsteps : EveryStep Keeps w steps) :
    EveryState (fun w => w.Idle → w.Awake) w steps := by
  induction steps generalizing w with
  | nil =>
      exact awake_of_starved hloop hstarved
  | cons a steps ih =>
      obtain ⟨hkeeps, hlater⟩ := hsteps
      exact ⟨awake_of_starved hloop hstarved,
        ih (oneLoop_step hloop a) (starved_step hstarved hkeeps) hlater⟩

theorem everyState_head
    {P : Acceptor → Prop} {steps : List Step}
    (h : EveryState P w steps) :
    P w := by
  cases steps with
  | nil =>
      exact h
  | cons a steps =>
      exact h.1

theorem everyStep_of_everyState
    {steps : List Step}
    (hloop : w.OneLoop)
    (hstates : EveryState (fun w => w.Idle → w.Awake) w steps) :
    EveryStep Keeps w steps := by
  induction steps generalizing w with
  | nil =>
      trivial
  | cons a steps ih =>
      refine ⟨?_, ih (oneLoop_step hloop a) hstates.2⟩
      by_contra hkeeps
      obtain ⟨hidle, hsleeps⟩ := sleeps_of_not_keeps hloop hkeeps
      exact hsleeps (everyState_head hstates.2 hidle)

/-- In every state of a run without a running callback an async_accept is
pending or the pool is empty, exactly when no link comes back to the pool from
the moment on at which Accept finds it empty. -/
theorem accept_awake_iff
    (maxSession : Nat)
    (steps : List Step) :
    EveryState (fun w => w.Idle → w.Awake) (listen maxSession) steps ↔
      EveryStep Keeps (listen maxSession) steps := by
  constructor
  · exact everyStep_of_everyState (oneLoop_listen maxSession)
  · exact everyState_of_everyStep (oneLoop_listen maxSession) (starved_listen maxSession)

/-- The only link of a manager is accepted, closed and given back. -/
def openAndClose : List Step :=
  [.complete 0 true, .create 0, .store 0, .close 0 false, .release 0]

/-- Behind them nothing is accepted any more. -/
theorem openAndClose_sleeps :
    ¬ EveryState (fun w => w.Idle → w.Awake) (listen 1) openAndClose := by
  rintro ⟨-, -, -, -, -, hlast⟩
  rcases hlast ⟨rfl, rfl⟩ with hpending | hempty
  · exact hpending rfl
  · rw [Pool.create_eq_none_iff] at hempty
    cases hempty

end Runs

end Acceptor

end Network
end Gamnet
