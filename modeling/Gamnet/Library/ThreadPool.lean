import Gamnet.Lib.Transition
import Mathlib.Algebra.GroupWithZero.Nat
import Mathlib.Data.List.Basic

/-!
# The thread pool

Worker threads wait on a condition variable for tasks. PostTask queues a task and notifies one
of them while it holds the mutex; the destructor sets stop_ and notifies all of them without
it.

In every run the tasks begin once each, in the order in which they were posted, and as long as
stop_ is not set no worker sleeps while there is a task for which no other worker is on its way
(`threadPool_tasks`). Behind the notify_all every worker returns, but for one that tested stop_
before it was set and was not yet asleep (`threadPool_shutdown`).
-/

namespace Gamnet

variable {TASK : Type}

/-- Where a worker is: in front of the lock, in front of the test of the loop or about to wait,
which both hold the mutex, asleep in wait, notified in there, behind the loop, which holds the
mutex, in a task, or at its end. -/
inductive Worker (TASK : Type)
  | locking
  | testing
  | falling
  | waiting
  | woken
  | leaving
  | running (task : TASK)
  | returned

namespace Worker

/-- The worker holds the mutex. -/
def holds : Worker TASK → Bool
  | testing | falling | leaving => true
  | _ => false

/-- The worker sleeps. -/
def sleeps : Worker TASK → Bool
  | waiting => true
  | _ => false

/-- The worker is on its way to the queue. -/
def comes : Worker TASK → Bool
  | locking | testing | woken | leaving => true
  | _ => false

/-- The worker is at its end. -/
def ended : Worker TASK → Bool
  | returned => true
  | _ => false

/-- What notify_all does to a worker. -/
def wake : Worker TASK → Worker TASK
  | waiting => woken
  | w => w

end Worker

/-- Who holds the mutex: a worker, or PostTask between the push and its end. -/
inductive Holder
  | worker (i : Nat)
  | poster
deriving DecidableEq

/-- How far the destructor is: not called, stop_ set, notify_all called, or all threads joined.
The worker that was about to wait when notify_all was called is noted. -/
inductive Destruction
  | alive
  | stopped
  | notified (late : Option Nat)
  | joined

/-- A pool with its workers, what was posted so far and what has begun. -/
structure ThreadPool (TASK : Type) where
  workers : List (Worker TASK)
  tasks : List TASK
  stop : Bool
  mutex : Option Holder
  destruction : Destruction
  posted : List TASK
  begun : List TASK

namespace ThreadPool

/-- What threads do. A worker takes the lock, tests the condition of the loop, waits, wakes up
for no reason, goes on behind the loop or finishes its task. -/
inductive Event (TASK : Type)
  | lock (i : Nat)
  | test (i : Nat)
  | wait (i : Nat)
  | spurious (i : Nat)
  | leave (i : Nat)
  | finish (i : Nat)
  | post (task : TASK)
  | notify (i : Option Nat)
  | stop
  | notifyAll
  | join

/-- The constructor with a number of threads. -/
def initial (threadCount : Nat) : ThreadPool TASK where
  workers := List.replicate threadCount .locking
  tasks := []
  stop := false
  mutex := none
  destruction := .alive
  posted := []
  begun := []

/-- A worker goes on to another place. -/
def move (s : ThreadPool TASK) (i : Nat) (w : Worker TASK) : ThreadPool TASK :=
  { s with workers := s.workers.set i w }

/-- The lock of a worker, also at the end of a wait. -/
def lock (s : ThreadPool TASK) (i : Nat) : Option (ThreadPool TASK) :=
  match s.workers[i]?, s.mutex with
  | some .locking, none | some .woken, none =>
      some { s.move i .testing with mutex := some (.worker i) }
  | _, _ => none

/-- The condition of the loop. -/
def test (s : ThreadPool TASK) (i : Nat) : Option (ThreadPool TASK) :=
  match s.workers[i]? with
  | some .testing =>
      some (s.move i (if s.stop = false ∧ s.tasks.isEmpty then .falling else .leaving))
  | _ => none

/-- The beginning of a wait. -/
def wait (s : ThreadPool TASK) (i : Nat) : Option (ThreadPool TASK) :=
  match s.workers[i]? with
  | some .falling => some { s.move i .waiting with mutex := none }
  | _ => none

/-- A worker in wait is notified, or wakes up. -/
def rouse (s : ThreadPool TASK) (i : Nat) : Option (ThreadPool TASK) :=
  match s.workers[i]? with
  | some .waiting => some (s.move i .woken)
  | _ => none

/-- What follows the loop: a return, or the task at the front. The front of an empty queue is
not defined. -/
def leave (s : ThreadPool TASK) (i : Nat) : Option (ThreadPool TASK) :=
  match s.workers[i]? with
  | some .leaving =>
      if s.stop then some { s.move i .returned with mutex := none }
      else
        match s.tasks with
        | [] => none
        | task :: tasks =>
            some
              { s.move i (.running task) with
                mutex := none, tasks := tasks, begun := s.begun ++ [task] }
  | _ => none

/-- The end of a task. -/
def finish (s : ThreadPool TASK) (i : Nat) : Option (ThreadPool TASK) :=
  match s.workers[i]? with
  | some (.running _) => some (s.move i .locking)
  | _ => none

/-- PostTask up to its notify_one. -/
def post (s : ThreadPool TASK) (task : TASK) : Option (ThreadPool TASK) :=
  match s.mutex, s.destruction with
  | _, .joined => none
  | none, _ =>
      some
        { s with
          mutex := some .poster, tasks := s.tasks ++ [task], posted := s.posted ++ [task] }
  | some _, _ => none

/-- notify_one, which wakes up any worker in wait if there is one, and the end of PostTask. -/
def notify (s : ThreadPool TASK) (i : Option Nat) : Option (ThreadPool TASK) :=
  match s.mutex, i with
  | some .poster, some i => (s.rouse i).map fun s => { s with mutex := none }
  | some .poster, none =>
      if s.workers.any Worker.sleeps then none else some { s with mutex := none }
  | _, _ => none

/-- The worker that is about to wait. -/
def late (s : ThreadPool TASK) : Option Nat :=
  match s.mutex with
  | some (.worker i) =>
      match s.workers[i]? with
      | some .falling => some i
      | _ => none
  | _ => none

/-- One step. -/
def step (s : ThreadPool TASK) : Event TASK → Option (ThreadPool TASK)
  | .lock i => s.lock i
  | .test i => s.test i
  | .wait i => s.wait i
  | .spurious i => s.rouse i
  | .leave i => s.leave i
  | .finish i => s.finish i
  | .post task => s.post task
  | .notify i => s.notify i
  | .stop =>
      match s.destruction with
      | .alive => some { s with stop := true, destruction := .stopped }
      | _ => none
  | .notifyAll =>
      match s.destruction with
      | .stopped =>
          some { s with workers := s.workers.map Worker.wake, destruction := .notified s.late }
      | _ => none
  | .join =>
      match s.destruction with
      | .notified _ =>
          if s.workers.all Worker.ended then some { s with destruction := .joined } else none
      | _ => none

section Inversion

variable {s s' : ThreadPool TASK} {i : Nat} {task : TASK}

theorem lock_cases
    (h : s.lock i = some s') :
    (s.workers[i]? = some .locking ∨ s.workers[i]? = some .woken) ∧ s.mutex = none ∧
      s' = { s.move i .testing with mutex := some (.worker i) } := by
  unfold lock at h
  split at h
  · rename_i hw hmutex
    exact ⟨.inl hw, hmutex, (Option.some.inj h).symm⟩
  · rename_i hw hmutex
    exact ⟨.inr hw, hmutex, (Option.some.inj h).symm⟩
  · cases h

theorem test_cases
    (h : s.test i = some s') :
    s.workers[i]? = some .testing ∧
      ((s.stop = false ∧ s.tasks = [] ∧ s' = s.move i .falling) ∨
        ((s.stop = true ∨ s.tasks ≠ []) ∧ s' = s.move i .leaving)) := by
  unfold test at h
  split at h
  · rename_i hw
    refine ⟨hw, ?_⟩
    split_ifs at h with hempty
    · exact .inl ⟨hempty.1, List.isEmpty_iff.mp hempty.2, (Option.some.inj h).symm⟩
    · refine .inr ⟨?_, (Option.some.inj h).symm⟩
      by_cases hstop : s.stop = true
      · exact .inl hstop
      · refine .inr fun htasks => hempty ⟨by simpa using hstop, by rw [htasks]; rfl⟩
  · cases h

theorem wait_cases
    (h : s.wait i = some s') :
    s.workers[i]? = some .falling ∧ s' = { s.move i .waiting with mutex := none } := by
  unfold wait at h
  split at h
  · rename_i hw
    exact ⟨hw, (Option.some.inj h).symm⟩
  · cases h

theorem rouse_cases
    (h : s.rouse i = some s') :
    s.workers[i]? = some .waiting ∧ s' = s.move i .woken := by
  unfold rouse at h
  split at h
  · rename_i hw
    exact ⟨hw, (Option.some.inj h).symm⟩
  · cases h

theorem leave_cases
    (h : s.leave i = some s') :
    s.workers[i]? = some .leaving ∧
      ((s.stop = true ∧ s' = { s.move i .returned with mutex := none }) ∨
        (s.stop = false ∧ ∃ task tasks, s.tasks = task :: tasks ∧
          s' = { s.move i (.running task) with
            mutex := none, tasks := tasks, begun := s.begun ++ [task] })) := by
  unfold leave at h
  split at h
  · rename_i hw
    refine ⟨hw, ?_⟩
    split_ifs at h with hstop
    · exact .inl ⟨hstop, (Option.some.inj h).symm⟩
    · split at h
      · cases h
      · rename_i task tasks htasks
        exact .inr ⟨by simpa using hstop, task, tasks, htasks, (Option.some.inj h).symm⟩
  · cases h

theorem finish_cases
    (h : s.finish i = some s') :
    (∃ task, s.workers[i]? = some (.running task)) ∧ s' = s.move i .locking := by
  unfold finish at h
  split at h
  · rename_i task hw
    exact ⟨⟨task, hw⟩, (Option.some.inj h).symm⟩
  · cases h

theorem post_cases
    (h : s.post task = some s') :
    s.mutex = none ∧
      s' = { s with
        mutex := some .poster, tasks := s.tasks ++ [task], posted := s.posted ++ [task] } := by
  unfold post at h
  split at h
  · cases h
  · rename_i hmutex hjoined
    exact ⟨hmutex, (Option.some.inj h).symm⟩
  · cases h

theorem notify_cases
    {i : Option Nat}
    (h : s.notify i = some s') :
    s.mutex = some .poster ∧
      ((i = none ∧ (∀ w ∈ s.workers, w.sleeps = false) ∧ s' = { s with mutex := none }) ∨
        ∃ j, i = some j ∧ s.workers[j]? = some .waiting ∧
          s' = { s.move j .woken with mutex := none }) := by
  unfold notify at h
  split at h
  · rename_i j hmutex
    obtain ⟨t, hrouse, rfl⟩ := Option.map_eq_some_iff.mp h
    obtain ⟨hw, rfl⟩ := rouse_cases hrouse
    exact ⟨hmutex, .inr ⟨j, rfl, hw, rfl⟩⟩
  · rename_i hmutex
    split_ifs at h with hsleeps
    refine ⟨hmutex, .inl ⟨rfl, ?_, (Option.some.inj h).symm⟩⟩
    simpa using hsleeps
  · cases h

end Inversion

/-- Exactly the worker that has the mutex is where it holds it. -/
def Guarded (workers : List (Worker TASK)) (mutex : Option Holder) : Prop :=
  ∀ i, mutex = some (.worker i) ↔ ∃ w, workers[i]? = some w ∧ w.holds = true

/-- A PostTask that has not called notify_one yet. -/
def unnotified (s : ThreadPool TASK) : Nat :=
  if s.mutex = some .poster then 1 else 0

@[simp] theorem move_workers (s : ThreadPool TASK) (i : Nat) (w : Worker TASK) :
    (s.move i w).workers = s.workers.set i w := rfl

@[simp] theorem move_tasks (s : ThreadPool TASK) (i : Nat) (w : Worker TASK) :
    (s.move i w).tasks = s.tasks := rfl

@[simp] theorem move_unnotified (s : ThreadPool TASK) (i : Nat) (w : Worker TASK) :
    (s.move i w).unnotified = s.unnotified := rfl

/-- What all runs keep. A worker that is about to wait has found no task; a worker that has left
the loop has found one, or stop_. -/
structure Inv (s : ThreadPool TASK) : Prop where
  posted : s.posted = s.begun ++ s.tasks
  guarded : Guarded s.workers s.mutex
  falling : ∀ i : Nat, s.workers[i]? = some .falling → s.tasks = []
  leaving : ∀ i : Nat, s.workers[i]? = some .leaving → s.stop = true ∨ s.tasks ≠ []
  returned : ∀ i : Nat, s.workers[i]? = some .returned → s.stop = true
  awake : s.stop = false → 0 < s.workers.countP Worker.sleeps →
    s.tasks.length ≤ s.workers.countP Worker.comes + s.unnotified
  alive : s.stop = false ↔ s.destruction = .alive
  late : ∀ late, s.destruction = .notified late → ∀ i : Nat,
    s.workers[i]? = some .falling ∨ s.workers[i]? = some .waiting → late = some i

section Moves

variable {s : ThreadPool TASK} {workers : List (Worker TASK)} {mutex mutex' : Option Holder}
variable {i j : Nat} {u v w : Worker TASK}

theorem getElem?_set_cases
    (h : (workers.set i v)[j]? = some w) :
    (j = i ∧ w = v) ∨ (j ≠ i ∧ workers[j]? = some w) := by
  by_cases hij : i = j
  · subst hij
    rw [List.getElem?_set_self'] at h
    obtain ⟨_, _, rfl⟩ := Option.map_eq_some_iff.mp h
    exact .inl ⟨rfl, rfl⟩
  · rw [List.getElem?_set_ne hij] at h
    exact .inr ⟨fun hji => hij hji.symm, h⟩

theorem getElem?_of_set
    (h : (workers.set i v)[j]? = some w)
    (hv : w ≠ v) :
    workers[j]? = some w := by
  rcases getElem?_set_cases h with ⟨-, hw⟩ | ⟨-, hold⟩
  · exact absurd hw hv
  · exact hold

/-- The number of workers of a kind behind a move. -/
theorem countP_set
    (p : Worker TASK → Bool)
    (hu : workers[i]? = some u) :
    (workers.set i v).countP p + (p u).toNat = workers.countP p + (p v).toNat := by
  induction workers generalizing i with
  | nil =>
      cases hu
  | cons first workers ih =>
      cases i with
      | zero =>
          obtain rfl : first = u := by simpa using hu
          simp only [List.set_cons_zero, List.countP_cons]
          cases p first <;> cases p v <;> simp
      | succ i =>
          have hrest := ih (i := i) (by simpa using hu)
          simp only [List.set_cons_succ, List.countP_cons]
          omega

/-- A move keeps the mutex where it is for the other workers. -/
theorem Guarded.set
    (h : Guarded workers mutex)
    (hu : workers[i]? = some u)
    (hself : mutex' = some (.worker i) ↔ v.holds = true)
    (hothers : ∀ j, j ≠ i → (mutex' = some (.worker j) ↔ mutex = some (.worker j))) :
    Guarded (workers.set i v) mutex' := by
  intro j
  by_cases hj : j = i
  · subst hj
    have hlt : j < workers.length := (List.getElem?_eq_some_iff.mp hu).1
    rw [hself, List.getElem?_set_self hlt]
    simp
  · rw [hothers j hj, h j, List.getElem?_set_ne (fun hij => hj hij.symm)]

/-- A worker that holds the mutex is the only one. -/
theorem Guarded.eq
    (h : Guarded workers mutex)
    (hu : workers[i]? = some u)
    (hholds : u.holds = true) :
    mutex = some (.worker i) :=
  (h i).mpr ⟨u, hu, hholds⟩

/-- Nobody else is where the mutex is held. -/
theorem Guarded.ne
    (h : Guarded workers mutex)
    (hmutex : mutex ≠ some (.worker j))
    (hw : workers[j]? = some w) :
    w.holds = false := by
  cases hholds : w.holds with
  | false =>
      rfl
  | true =>
      exact absurd (h.eq hw hholds) hmutex

end Moves

section Keep

variable {s s' : ThreadPool TASK} {i : Nat}

/-- notify_all is called behind stop_ = true. -/
theorem Inv.stop
    (h : Inv s)
    {late : Option Nat}
    (hlate : s.destruction = .notified late) :
    s.stop = true := by
  rw [← Bool.not_eq_false, h.alive, hlate]
  nofun

/-- A move of a worker, with what becomes of the mutex. -/
theorem Inv.set
    (h : Inv s)
    {u v : Worker TASK} {mutex : Option Holder}
    (hu : s.workers[i]? = some u)
    (hself : mutex = some (.worker i) ↔ v.holds = true)
    (hothers : ∀ j, j ≠ i → (mutex = some (.worker j) ↔ s.mutex = some (.worker j)))
    (hfalling : v = .falling → s.tasks = [] ∧ s.stop = false)
    (hleaving : v = .leaving → s.stop = true ∨ s.tasks ≠ [])
    (hreturned : v = .returned → s.stop = true)
    (hwaiting : v = .waiting → u = .falling)
    (hawake : s.stop = false → s.tasks ≠ [] →
      0 < (s.workers.set i v).countP Worker.sleeps →
      s.tasks.length ≤ (s.workers.set i v).countP Worker.comes +
        (if mutex = some .poster then 1 else 0)) :
    Inv { s.move i v with mutex := mutex } where
  posted := h.posted
  guarded := h.guarded.set hu hself hothers
  falling j hj := by
    rcases getElem?_set_cases hj with ⟨-, hv⟩ | ⟨-, hold⟩
    · exact (hfalling hv.symm).1
    · exact h.falling j hold
  leaving j hj := by
    rcases getElem?_set_cases hj with ⟨-, hv⟩ | ⟨-, hold⟩
    · exact hleaving hv.symm
    · exact h.leaving j hold
  returned j hj := by
    rcases getElem?_set_cases hj with ⟨-, hv⟩ | ⟨-, hold⟩
    · exact hreturned hv.symm
    · exact h.returned j hold
  awake hstop hsleep := by
    by_cases hempty : s.tasks = []
    · show s.tasks.length ≤ _
      rw [hempty]
      exact Nat.zero_le _
    · exact hawake hstop hempty hsleep
  alive := h.alive
  late late hlate j hj := by
    rcases hj with hj | hj
    · rcases getElem?_set_cases hj with ⟨-, hv⟩ | ⟨-, hold⟩
      · have hstop := h.stop hlate
        rw [(hfalling hv.symm).2] at hstop
        cases hstop
      · exact h.late late hlate j (.inl hold)
    · rcases getElem?_set_cases hj with ⟨hji, hv⟩ | ⟨-, hold⟩
      · rw [hwaiting hv.symm, ← hji] at hu
        exact h.late late hlate j (.inl hu)
      · exact h.late late hlate j (.inr hold)

/-- Behind a move of a worker the sleepers are no more than before, and those that come are no
fewer. -/
theorem Inv.awake_set
    (h : Inv s)
    {u v : Worker TASK}
    (hu : s.workers[i]? = some u)
    (hsleeps : v.sleeps = false)
    (hcomes : u.comes = true → v.comes = true)
    (hstop : s.stop = false)
    (hsleep : 0 < (s.workers.set i v).countP Worker.sleeps) :
    s.tasks.length ≤ (s.workers.set i v).countP Worker.comes + s.unnotified := by
  have hcountSleeps := countP_set (v := v) Worker.sleeps hu
  have hcountComes := countP_set (v := v) Worker.comes hu
  rw [hsleeps, Bool.toNat_false] at hcountSleeps
  have hbefore := h.awake hstop (Nat.lt_of_lt_of_le hsleep (Nat.le.intro hcountSleeps))
  cases hu' : u.comes with
  | false =>
      rw [hu', Bool.toNat_false] at hcountComes
      omega
  | true =>
      rw [hu', hcomes hu'] at hcountComes
      omega

theorem Inv.lock
    (h : Inv s)
    (hstep : s.lock i = some s') :
    Inv s' := by
  obtain ⟨hu, hmutex, rfl⟩ := lock_cases hstep
  have hunnotified : s.unnotified = 0 := by simp [unnotified, hmutex]
  rcases hu with hu | hu
  all_goals
    refine h.set hu (by simp [Worker.holds]) (fun j hj => by simp [hmutex, Ne.symm hj]) nofun nofun
      nofun nofun ?_
    intro hstop _ hsleep
    have hawake := h.awake_set hu rfl (fun _ => rfl) hstop hsleep
    rw [hunnotified] at hawake
    simpa using hawake

theorem Inv.test
    (h : Inv s)
    (hstep : s.test i = some s') :
    Inv s' := by
  obtain ⟨hu, ⟨hstop, hempty, rfl⟩ | ⟨hleave, rfl⟩⟩ := test_cases hstep
  · exact h.set hu ⟨fun _ => rfl, fun _ => h.guarded.eq hu rfl⟩ (fun _ _ => Iff.rfl)
      (fun _ => ⟨hempty, hstop⟩) nofun nofun nofun (fun _ htasks => absurd hempty htasks)
  · exact h.set hu ⟨fun _ => rfl, fun _ => h.guarded.eq hu rfl⟩ (fun _ _ => Iff.rfl) nofun
      (fun _ => hleave) nofun nofun (fun hstop _ => h.awake_set hu rfl (fun _ => rfl) hstop)

theorem Inv.wait
    (h : Inv s)
    (hstep : s.wait i = some s') :
    Inv s' := by
  obtain ⟨hu, rfl⟩ := wait_cases hstep
  have hmutex := h.guarded.eq hu rfl
  exact h.set hu (by simp [Worker.holds]) (fun j hj => by simp [hmutex, Ne.symm hj]) nofun nofun
    nofun (fun _ => rfl) (fun _ htasks => absurd (h.falling i hu) htasks)

theorem Inv.spurious
    (h : Inv s)
    (hstep : s.rouse i = some s') :
    Inv s' := by
  obtain ⟨hu, rfl⟩ := rouse_cases hstep
  refine h.set hu ?_ (fun _ _ => Iff.rfl) nofun nofun nofun nofun
    (fun hstop _ => h.awake_set hu rfl nofun hstop)
  rw [h.guarded i, hu]
  simp [Worker.holds]

theorem Inv.finish
    (h : Inv s)
    (hstep : s.finish i = some s') :
    Inv s' := by
  obtain ⟨⟨task, hu⟩, rfl⟩ := finish_cases hstep
  refine h.set hu ?_ (fun _ _ => Iff.rfl) nofun nofun nofun nofun
    (fun hstop _ => h.awake_set hu rfl nofun hstop)
  rw [h.guarded i, hu]
  simp [Worker.holds]

theorem Inv.notify
    (h : Inv s)
    {i : Option Nat}
    (hstep : s.notify i = some s') :
    Inv s' := by
  obtain ⟨hmutex, ⟨rfl, hsleeps, rfl⟩ | ⟨j, rfl, hu, rfl⟩⟩ := notify_cases hstep
  · exact
      { h with
        guarded := fun j => by
          rw [← h.guarded j, hmutex]
          simp
        awake := fun _ hsleep => by
          obtain ⟨w, hw, hw'⟩ := List.countP_pos_iff.mp hsleep
          rw [hsleeps w hw] at hw'
          cases hw' }
  · refine h.set hu (by simp [Worker.holds]) (fun j hj => by simp [hmutex]) nofun nofun nofun
      nofun ?_
    intro hstop _ _
    have hcountComes := countP_set (v := .woken) Worker.comes hu
    have hsleep : 0 < s.workers.countP Worker.sleeps :=
      List.countP_pos_iff.mpr ⟨_, List.mem_of_getElem? hu, rfl⟩
    have hawake := h.awake hstop hsleep
    simp only [unnotified, hmutex, Worker.comes, Bool.toNat_true, Bool.toNat_false, if_true]
      at hawake hcountComes
    omega

theorem Inv.leave
    (h : Inv s)
    (hstep : s.leave i = some s') :
    Inv s' := by
  obtain ⟨hu, ⟨hstop, rfl⟩ | ⟨hstop, task, tasks, htasks, rfl⟩⟩ := leave_cases hstep
  · have hmutex := h.guarded.eq hu rfl
    refine h.set hu (by simp [Worker.holds]) (fun j hj => by simp [hmutex, Ne.symm hj]) nofun nofun
      (fun _ => hstop) nofun (fun hstop' => ?_)
    rw [hstop] at hstop'
    cases hstop'
  · have hmutex := h.guarded.eq hu rfl
    have hguarded : Guarded (s.workers.set i (.running task)) none :=
      h.guarded.set hu (by simp [Worker.holds]) (fun j hj => by simp [hmutex, Ne.symm hj])
    have hnone : ∀ (j : Nat) w, (s.workers.set i (.running task))[j]? = some w →
        w.holds = false :=
      fun j w hw => hguarded.ne (by simp) hw
    exact
      { posted := by
          show s.posted = s.begun ++ [task] ++ tasks
          rw [h.posted, htasks, List.append_assoc]
          rfl
        guarded := hguarded
        falling := fun j hj => by cases hnone j _ hj
        leaving := fun j hj => by cases hnone j _ hj
        returned := fun j hj => h.returned j (getElem?_of_set hj nofun)
        awake := fun _ hsleep => by
          have hcountSleeps := countP_set (v := .running task) Worker.sleeps hu
          have hcountComes := countP_set (v := .running task) Worker.comes hu
          have hawake := h.awake hstop (Nat.lt_of_lt_of_le hsleep (Nat.le.intro hcountSleeps))
          show tasks.length ≤ (s.workers.set i (.running task)).countP Worker.comes + 0
          rw [htasks, List.length_cons] at hawake
          simp only [unnotified, hmutex, Worker.comes, Bool.toNat_true, Bool.toNat_false,
            Option.some.injEq, reduceCtorEq, if_false] at hawake hcountComes
          omega
        alive := h.alive
        late := fun l hlate => by
          have hstop' := h.stop hlate
          rw [hstop] at hstop'
          cases hstop' }

theorem Inv.post
    (h : Inv s)
    {task : TASK}
    (hstep : s.post task = some s') :
    Inv s' := by
  obtain ⟨hmutex, rfl⟩ := post_cases hstep
  have hnone : ∀ (j : Nat) w, s.workers[j]? = some w → w.holds = false :=
    fun j w hw => h.guarded.ne (by simp [hmutex]) hw
  exact
    { h with
      posted := by
        show s.posted ++ [task] = s.begun ++ (s.tasks ++ [task])
        rw [h.posted, List.append_assoc]
      guarded := fun j => by
        rw [← h.guarded j, hmutex]
        simp
      falling := fun j hj => by cases hnone j _ hj
      leaving := fun j hj => by cases hnone j _ hj
      awake := fun hstop hsleep => by
        have hawake := h.awake hstop hsleep
        simp only [unnotified, hmutex, reduceCtorEq, if_false, if_true, List.length_append,
          List.length_singleton] at hawake ⊢
        omega }

/-- notify_all leaves a worker where it is, unless it sleeps. -/
theorem wake_cases
    {workers : List (Worker TASK)} {w : Worker TASK}
    (h : (workers.map Worker.wake)[i]? = some w) :
    w ≠ .waiting ∧ (w ≠ .woken → workers[i]? = some w) := by
  rw [List.getElem?_map] at h
  obtain ⟨u, hu, rfl⟩ := Option.map_eq_some_iff.mp h
  cases u with
  | waiting => exact ⟨nofun, fun hne => absurd rfl hne⟩
  | _ => exact ⟨nofun, fun _ => hu⟩

theorem Guarded.wake
    {workers : List (Worker TASK)} {mutex : Option Holder}
    (h : Guarded workers mutex) :
    Guarded (workers.map Worker.wake) mutex := by
  intro i
  rw [h i, List.getElem?_map]
  cases workers[i]? with
  | none => simp
  | some w => cases w <;> simp [Worker.wake, Worker.holds]

/-- The destructor up to its joins. -/
theorem Inv.notifyAll
    (h : Inv s)
    (hstep : s.step .notifyAll = some s') :
    Inv s' := by
  simp only [step] at hstep
  split at hstep
  · rename_i hstopped
    cases hstep
    exact
      { posted := h.posted
        guarded := h.guarded.wake
        falling := fun j hj => h.falling j ((wake_cases hj).2 nofun)
        leaving := fun j hj => h.leaving j ((wake_cases hj).2 nofun)
        returned := fun j hj => h.returned j ((wake_cases hj).2 nofun)
        awake := fun _ hsleep => by
          obtain ⟨w, hw, hw'⟩ := List.countP_pos_iff.mp hsleep
          obtain ⟨u, -, rfl⟩ := List.mem_map.mp hw
          cases u <;> cases hw'
        alive := by
          rw [h.alive, hstopped]
          exact ⟨nofun, nofun⟩
        late := fun late hlate j hj => by
          cases hlate
          rcases hj with hj | hj
          · have hfalling := (wake_cases hj).2 nofun
            simp only [ThreadPool.late, h.guarded.eq hfalling rfl, hfalling]
          · exact absurd rfl (wake_cases hj).1 }
  · cases hstep

theorem Inv.step
    (h : Inv s)
    {e : Event TASK}
    (hstep : s.step e = some s') :
    Inv s' := by
  cases e with
  | lock i => exact h.lock hstep
  | test i => exact h.test hstep
  | wait i => exact h.wait hstep
  | spurious i => exact h.spurious hstep
  | leave i => exact h.leave hstep
  | finish i => exact h.finish hstep
  | post task => exact h.post hstep
  | notify i => exact h.notify hstep
  | notifyAll => exact h.notifyAll hstep
  | stop =>
      simp only [ThreadPool.step] at hstep
      split at hstep
      · cases hstep
        exact
          { h with
            leaving := fun _ _ => .inl rfl
            returned := fun _ _ => rfl
            awake := nofun
            alive := ⟨nofun, nofun⟩
            late := nofun }
      · cases hstep
  | join =>
      simp only [ThreadPool.step] at hstep
      split at hstep
      · rename_i late hlate
        split_ifs at hstep
        cases hstep
        exact
          { h with
            alive := by
              rw [h.alive, hlate]
              exact ⟨nofun, nofun⟩
            late := nofun }
      · cases hstep

theorem initial_inv
    (threadCount : Nat) :
    Inv (initial threadCount : ThreadPool TASK) := by
  have hlocking : ∀ (i : Nat) (w : Worker TASK),
      (List.replicate threadCount Worker.locking)[i]? = some w → w = .locking := by
    intro i w hw
    exact List.eq_of_mem_replicate (List.mem_of_getElem? hw)
  exact
    { posted := rfl
      guarded := fun i => by
        refine ⟨nofun, ?_⟩
        rintro ⟨w, hw, hholds⟩
        rw [hlocking i w hw] at hholds
        cases hholds
      falling := fun _ _ => rfl
      leaving := fun i hi => by cases hlocking i _ hi
      returned := fun i hi => by cases hlocking i _ hi
      awake := fun _ _ => Nat.zero_le _
      alive := ⟨fun _ => rfl, fun _ => rfl⟩
      late := nofun }

/-- What all runs keep. -/
theorem run_inv
    {threadCount : Nat} {events : List (Event TASK)}
    (hrun : Transition.run ThreadPool.step (initial threadCount) events = some s) :
    Inv s :=
  Transition.run_invariant Inv (fun _ _ _ h hstep => h.step hstep) (initial_inv threadCount) hrun

end Keep

/-- The steps of the threads that go on by themselves. -/
def Event.works : Event TASK → Bool
  | .lock _ | .test _ | .wait _ | .leave _ | .finish _ | .notify _ => true
  | _ => false

/-- None of these steps is possible. -/
def Rested (s : ThreadPool TASK) : Prop :=
  ∀ e : Event TASK, e.works = true → s.step e = none

/-- How far a worker is from a wait or its end. -/
def rank : Worker TASK → Nat
  | .running _ => 5
  | .locking | .woken => 4
  | .testing => 3
  | .leaving => 2
  | .falling => 1
  | .waiting | .returned => 0

/-- A bound on the steps that are left. A task brings its worker back to the lock. -/
def work (s : ThreadPool TASK) : Nat :=
  (s.workers.map rank).sum + 4 * s.tasks.length + 5 * s.unnotified

section Work

variable {s s' t : ThreadPool TASK} {e : Event TASK} {es : List (Event TASK)}

theorem sum_rank_set
    {workers : List (Worker TASK)} {i : Nat} {u v : Worker TASK}
    (hu : workers[i]? = some u) :
    ((workers.set i v).map rank).sum + rank u = (workers.map rank).sum + rank v := by
  induction workers generalizing i with
  | nil =>
      cases hu
  | cons first workers ih =>
      cases i with
      | zero =>
          obtain rfl : first = u := by simpa using hu
          simp only [List.set_cons_zero, List.map_cons, List.sum_cons]
          omega
      | succ i =>
          have hrest := ih (i := i) (by simpa using hu)
          simp only [List.set_cons_succ, List.map_cons, List.sum_cons]
          omega

/-- Each of these steps leaves less to do. -/
theorem work_lt
    (h : Inv s)
    (hworks : e.works = true)
    (hstep : s.step e = some s') :
    s'.work < s.work := by
  have hset : ∀ {i : Nat} {u : Worker TASK} (v : Worker TASK), s.workers[i]? = some u →
      ((s.workers.set i v).map rank).sum + rank u = (s.workers.map rank).sum + rank v :=
    fun v hu => sum_rank_set hu
  cases e with
  | lock i =>
      obtain ⟨hu, hmutex, rfl⟩ := lock_cases hstep
      rcases hu with hu | hu
      all_goals
        have hsum := hset .testing hu
        simp only [work, move, unnotified, hmutex, rank, reduceCtorEq, Option.some.injEq,
          if_false] at hsum ⊢
        omega
  | test i =>
      obtain ⟨hu, ⟨-, -, rfl⟩ | ⟨-, rfl⟩⟩ := test_cases hstep
      · have hsum := hset .falling hu
        simp only [work, move_workers, move_tasks, move_unnotified, rank] at hsum ⊢
        omega
      · have hsum := hset .leaving hu
        simp only [work, move_workers, move_tasks, move_unnotified, rank] at hsum ⊢
        omega
  | wait i =>
      obtain ⟨hu, rfl⟩ := wait_cases hstep
      have hsum := hset .waiting hu
      simp only [work, move, unnotified, h.guarded.eq hu rfl, rank, reduceCtorEq,
        Option.some.injEq, if_false] at hsum ⊢
      omega
  | leave i =>
      obtain ⟨hu, ⟨-, rfl⟩ | ⟨-, task, tasks, htasks, rfl⟩⟩ := leave_cases hstep
      · have hsum := hset .returned hu
        simp only [work, move, unnotified, h.guarded.eq hu rfl, rank, reduceCtorEq,
          Option.some.injEq, if_false] at hsum ⊢
        omega
      · have hsum := hset (.running task) hu
        simp only [work, move, unnotified, h.guarded.eq hu rfl, rank, reduceCtorEq,
          Option.some.injEq, if_false, htasks, List.length_cons] at hsum ⊢
        omega
  | finish i =>
      obtain ⟨⟨task, hu⟩, rfl⟩ := finish_cases hstep
      have hsum := hset .locking hu
      simp only [work, move_workers, move_tasks, move_unnotified, rank] at hsum ⊢
      omega
  | notify i =>
      obtain ⟨hmutex, ⟨rfl, -, rfl⟩ | ⟨j, rfl, hu, rfl⟩⟩ := notify_cases hstep
      · simp only [work, unnotified, hmutex, reduceCtorEq, if_false, if_true]
        omega
      · have hsum := hset .woken hu
        simp only [work, move, unnotified, hmutex, rank, reduceCtorEq, if_false, if_true]
          at hsum ⊢
        omega
  | _ => cases hworks

/-- What these steps leave alone. Once stop_ is set no task begins. -/
structure Carries (s s' : ThreadPool TASK) : Prop where
  length : s'.workers.length = s.workers.length
  posted : s'.posted = s.posted
  stop : s'.stop = s.stop
  destruction : s'.destruction = s.destruction
  begun : s.stop = true → s'.begun = s.begun

theorem carries_of_works
    (hworks : e.works = true)
    (hstep : s.step e = some s') :
    Carries s s' := by
  cases e with
  | lock i =>
      obtain ⟨-, -, rfl⟩ := lock_cases hstep
      exact ⟨List.length_set, rfl, rfl, rfl, fun _ => rfl⟩
  | test i =>
      obtain ⟨-, ⟨-, -, rfl⟩ | ⟨-, rfl⟩⟩ := test_cases hstep
      all_goals exact ⟨List.length_set, rfl, rfl, rfl, fun _ => rfl⟩
  | wait i =>
      obtain ⟨-, rfl⟩ := wait_cases hstep
      exact ⟨List.length_set, rfl, rfl, rfl, fun _ => rfl⟩
  | leave i =>
      obtain ⟨-, ⟨-, rfl⟩ | ⟨hstop, task, tasks, -, rfl⟩⟩ := leave_cases hstep
      · exact ⟨List.length_set, rfl, rfl, rfl, fun _ => rfl⟩
      · refine ⟨List.length_set, rfl, rfl, rfl, fun hstop' => ?_⟩
        rw [hstop] at hstop'
        cases hstop'
  | finish i =>
      obtain ⟨-, rfl⟩ := finish_cases hstep
      exact ⟨List.length_set, rfl, rfl, rfl, fun _ => rfl⟩
  | notify i =>
      obtain ⟨-, ⟨rfl, -, rfl⟩ | ⟨j, rfl, -, rfl⟩⟩ := notify_cases hstep
      · exact ⟨rfl, rfl, rfl, rfl, fun _ => rfl⟩
      · exact ⟨List.length_set, rfl, rfl, rfl, fun _ => rfl⟩
  | _ => cases hworks

/-- No thread is made or lost. -/
theorem step_length
    (hstep : s.step e = some s') :
    s'.workers.length = s.workers.length := by
  cases hworks : e.works with
  | true =>
      exact (carries_of_works hworks hstep).length
  | false =>
      cases e with
      | spurious i =>
          obtain ⟨-, rfl⟩ := rouse_cases hstep
          exact List.length_set
      | post task =>
          obtain ⟨-, rfl⟩ := post_cases hstep
          rfl
      | stop =>
          simp only [step] at hstep
          split at hstep <;> cases hstep
          rfl
      | notifyAll =>
          simp only [step] at hstep
          split at hstep <;> cases hstep
          exact List.length_map _
      | join =>
          simp only [step] at hstep
          split at hstep
          · split_ifs at hstep
            cases hstep
            rfl
          · cases hstep
      | _ => cases hworks

theorem run_length
    {threadCount : Nat}
    (hrun : Transition.run step (initial threadCount) es = some s) :
    s.workers.length = threadCount :=
  Transition.run_invariant (fun s => s.workers.length = threadCount)
    (fun _ _ _ hlength hstep => (step_length hstep).trans hlength) List.length_replicate hrun

/-- A run of these steps: it is no longer than the work that was left. -/
theorem run_works
    (h : Inv s)
    (hworks : ∀ e ∈ es, e.works = true)
    (hrun : Transition.run step s es = some t) :
    Inv t ∧ Carries s t ∧ es.length + t.work ≤ s.work := by
  induction es generalizing s with
  | nil =>
      cases hrun
      exact ⟨h, ⟨rfl, rfl, rfl, rfl, fun _ => rfl⟩, by simp⟩
  | cons e es ih =>
      obtain ⟨s', hstep, hrest⟩ := Transition.exists_of_run_cons hrun
      have he := hworks e (by simp)
      obtain ⟨ht, hcarries, hlength⟩ :=
        ih (h.step hstep) (fun e he => hworks e (by simp [he])) hrest
      have hfirst := carries_of_works he hstep
      have hlt := work_lt h he hstep
      refine ⟨ht, ⟨?_, ?_, ?_, ?_, ?_⟩, by rw [List.length_cons]; omega⟩
      · exact hcarries.length.trans hfirst.length
      · exact hcarries.posted.trans hfirst.posted
      · exact hcarries.stop.trans hfirst.stop
      · exact hcarries.destruction.trans hfirst.destruction
      · intro hstop
        exact (hcarries.begun (hfirst.stop.trans hstop)).trans (hfirst.begun hstop)

/-- When nothing goes on, the mutex is free and every worker sleeps or has returned. -/
theorem Rested.workers
    (hrested : Rested s)
    (h : Inv s) :
    s.mutex = none ∧
      ∀ (i : Nat) (w : Worker TASK), s.workers[i]? = some w → w = .waiting ∨ w = .returned := by
  have hmutex : s.mutex = none := by
    cases hmutex : s.mutex with
    | none =>
        rfl
    | some holder =>
        cases holder with
        | worker i =>
            obtain ⟨w, hw, hholds⟩ := (h.guarded i).mp hmutex
            cases w with
            | testing =>
                have hstep := hrested (.test i) rfl
                simp [step, test, hw] at hstep
            | falling =>
                have hstep := hrested (.wait i) rfl
                simp [step, wait, hw] at hstep
            | leaving =>
                have hstep := hrested (.leave i) rfl
                simp only [step, leave, hw] at hstep
                split_ifs at hstep with hstop
                split at hstep
                · rename_i hempty
                  exact absurd hempty ((h.leaving i hw).resolve_left hstop)
                · cases hstep
            | _ => cases hholds
        | poster =>
            by_cases hsleeps : s.workers.any Worker.sleeps = true
            · obtain ⟨w, hw, hw'⟩ := List.any_eq_true.mp hsleeps
              obtain ⟨i, hi⟩ := List.getElem?_of_mem hw
              cases w with
              | waiting =>
                  have hstep := hrested (.notify (some i)) rfl
                  simp [step, notify, hmutex, rouse, hi] at hstep
              | _ => cases hw'
            · have hstep := hrested (.notify none) rfl
              simp only [step, notify, hmutex, hsleeps] at hstep
              cases hstep
  refine ⟨hmutex, fun i w hw => ?_⟩
  cases w with
  | waiting => exact .inl rfl
  | returned => exact .inr rfl
  | locking =>
      have hstep := hrested (.lock i) rfl
      simp [step, lock, hw, hmutex] at hstep
  | woken =>
      have hstep := hrested (.lock i) rfl
      simp [step, lock, hw, hmutex] at hstep
  | running task =>
      have hstep := hrested (.finish i) rfl
      simp [step, finish, hw] at hstep
  | testing => cases hmutex.symm.trans (h.guarded.eq hw rfl)
  | falling => cases hmutex.symm.trans (h.guarded.eq hw rfl)
  | leaving => cases hmutex.symm.trans (h.guarded.eq hw rfl)

end Work

/-- A pool at rest has begun all tasks, unless stop_ is set. -/
theorem Rested.begun
    {s : ThreadPool TASK}
    (hrested : Rested s)
    (h : Inv s)
    (hstop : s.stop = false)
    (hworkers : 0 < s.workers.length) :
    s.begun = s.posted := by
  obtain ⟨hmutex, hplace⟩ := hrested.workers h
  have hwaiting : ∀ w ∈ s.workers, w = .waiting := by
    intro w hw
    obtain ⟨i, hi⟩ := List.getElem?_of_mem hw
    refine (hplace i w hi).resolve_right ?_
    rintro rfl
    have hreturned := h.returned i hi
    rw [hstop] at hreturned
    cases hreturned
  have hsleeps : 0 < s.workers.countP Worker.sleeps := by
    obtain ⟨w, hw⟩ := List.exists_mem_of_length_pos hworkers
    refine List.countP_pos_iff.mpr ⟨w, hw, ?_⟩
    rw [hwaiting w hw]
    rfl
  have hcomes : s.workers.countP Worker.comes = 0 := by
    refine List.countP_eq_zero.mpr fun w hw => ?_
    rw [hwaiting w hw]
    nofun
  have hunnotified : s.unnotified = 0 := by simp [unnotified, hmutex]
  have hempty : s.tasks = [] := by
    have hawake := h.awake hstop hsleeps
    rw [hcomes, hunnotified] at hawake
    exact List.length_eq_zero_iff.mp (Nat.le_zero.mp hawake)
  rw [h.posted, hempty, List.append_nil]

/-- In every run the tasks that have begun and those in the queue are those that were posted, in
order. As long as stop_ is not set, a worker sleeps only if for each task in the queue there is
another worker on its way, or a notify_one to come; and whatever the threads do, they come to
rest within a bounded number of steps, when every posted task has begun. -/
theorem threadPool_tasks
    {threadCount : Nat} {events : List (Event TASK)} {s : ThreadPool TASK}
    (hcount : 0 < threadCount)
    (hrun : Transition.run step (initial threadCount) events = some s) :
    s.posted = s.begun ++ s.tasks ∧
      (s.stop = false →
        (0 < s.workers.countP Worker.sleeps →
          s.tasks.length ≤ s.workers.countP Worker.comes + s.unnotified) ∧
        ∀ works t, (∀ e ∈ works, e.works = true) → Transition.run step s works = some t →
          works.length ≤ s.work ∧ (Rested t → t.begun = s.posted)) := by
  have h := run_inv hrun
  refine ⟨h.posted, fun hstop => ⟨h.awake hstop, fun works t hworks hrest => ?_⟩⟩
  obtain ⟨ht, hcarries, hlength⟩ := run_works h hworks hrest
  refine ⟨by omega, fun hrested => ?_⟩
  have hworkers : 0 < t.workers.length := by
    rw [hcarries.length, run_length hrun]
    exact hcount
  exact (hrested.begun ht (hcarries.stop.trans hstop) hworkers).trans hcarries.posted

/-- A worker that sleeps while another one runs a task: the next task wakes it up. -/
def twoTasks : List (Event Nat) :=
  [.lock 0, .test 0, .wait 0, .lock 1, .test 1, .wait 1, .post 7, .notify (some 1), .lock 1,
    .test 1, .leave 1, .post 8, .notify (some 0)]

/-- Two workers and two tasks. -/
theorem threadPool_twoTasks :
    ∃ s, Transition.run step (initial 2) twoTasks = some s ∧ s.posted = s.begun ++ s.tasks :=
  ⟨_, rfl, (@threadPool_tasks Nat 2 twoTasks _ (by decide) rfl).1⟩

/-- From notify_all on no task begins, and whatever the threads do, they come to rest within a
bounded number of steps. All have returned then, but for a worker that was about to wait when
notify_all was called: it may sleep, and then the destructor does not return. -/
theorem threadPool_shutdown
    {threadCount : Nat} {events : List (Event TASK)} {s t : ThreadPool TASK} {late : Option Nat}
    {works : List (Event TASK)}
    (hrun : Transition.run step (initial threadCount) events = some s)
    (hlate : s.destruction = .notified late)
    (hworks : ∀ e ∈ works, e.works = true)
    (hrest : Transition.run step s works = some t) :
    works.length ≤ s.work ∧ t.begun = s.begun ∧
      (Rested t →
        (∀ (i : Nat) w, t.workers[i]? = some w → w = .returned ∨ (w = .waiting ∧ late = some i)) ∧
        ((t.step .join).isSome = true ↔ ∀ i, late = some i → t.workers[i]? ≠ some .waiting)) := by
  have h := run_inv hrun
  obtain ⟨ht, hcarries, hlength⟩ := run_works h hworks hrest
  refine ⟨by omega, hcarries.begun (h.stop hlate), fun hrested => ?_⟩
  obtain ⟨-, hplace⟩ := hrested.workers ht
  have hlate' : t.destruction = .notified late := hcarries.destruction.trans hlate
  have hworkers : ∀ (i : Nat) w, t.workers[i]? = some w →
      w = .returned ∨ (w = .waiting ∧ late = some i) := by
    intro i w hw
    rcases hplace i w hw with rfl | rfl
    · exact .inr ⟨rfl, ht.late late hlate' i (.inr hw)⟩
    · exact .inl rfl
  refine ⟨hworkers, ?_⟩
  simp only [step, hlate']
  constructor
  · intro hjoin i _ hi
    split_ifs at hjoin with hended
    · have hw := List.all_eq_true.mp hended _ (List.mem_of_getElem? hi)
      cases hw
    · cases hjoin
  · intro hnone
    have hended : t.workers.all Worker.ended = true := by
      refine List.all_eq_true.mpr fun w hw => ?_
      obtain ⟨i, hi⟩ := List.getElem?_of_mem hw
      rcases hworkers i w hi with rfl | ⟨rfl, hi'⟩
      · rfl
      · exact absurd hi (hnone i hi')
    rw [if_pos hended]
    rfl

/-- The destructor is called while a worker is about to wait. -/
def lateWait : List (Event Nat) :=
  [.lock 0, .test 0, .stop, .notifyAll]

/-- The worker goes to sleep behind notify_all, and nothing wakes it up. -/
theorem threadPool_lateWait :
    ∃ s t : ThreadPool Nat, Transition.run step (initial 1) lateWait = some s ∧
      Transition.run step s [.wait 0] = some t ∧ t.workers = [.waiting] ∧ t.begun = s.begun :=
  ⟨_, _, rfl, rfl, rfl,
    (@threadPool_shutdown Nat 1 lateWait _ _ (some 0) [.wait 0] rfl rfl (by decide) rfl).2.1⟩

end ThreadPool
end Gamnet
