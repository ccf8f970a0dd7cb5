import Gamnet.Lib.Transition
import Gamnet.Unity.Session
import Mathlib.Order.Minimal

/-!
# The time-outs of the client

SetTimeout starts a timer and adds it to the list of its message id, UnsetTimeout removes the
first timer of a list. The timers have no part in that: one that fires stays in its list, and
one that leaves its list is not stopped. The monitor of StreamSession differs in the type of
the message ids and in what the callback is.

In a run each UnsetTimeout cancels the oldest pending time-out, and no callback of a cancelled
one is called, exactly if no UnsetTimeout finds a timer that has fired in front of one that
has not, and no timer fires that is not in its list any more (`cancelled_never_called_iff`).
-/

namespace Gamnet
namespace Unity

/-- The dictionary of the timers. An id without an entry has no timers. The timers are numbered
as they are started. -/
structure TimeoutMonitor (ID : Type) where
  timers : ID → List Nat

namespace TimeoutMonitor

variable {ID : Type} [DecidableEq ID]

/-- SetTimeout behind the start of the timer. -/
def setTimeout (monitor : TimeoutMonitor ID) (msgId : ID) (timer : Nat) : TimeoutMonitor ID where
  timers := Function.update monitor.timers msgId (monitor.timers msgId ++ [timer])

/-- UnsetTimeout. -/
def unsetTimeout (monitor : TimeoutMonitor ID) (msgId : ID) : TimeoutMonitor ID where
  timers := Function.update monitor.timers msgId (monitor.timers msgId).tail

/-- The number of timers of each id. -/
def count (monitor : TimeoutMonitor ID) (msgId : ID) : Nat :=
  (monitor.timers msgId).length

/-- Interval, in milliseconds. -/
def interval (timeout : Int32) : Int32 :=
  timeout * 1000

end TimeoutMonitor

/-- The session counts the timers as the monitor has them. -/
theorem Session.unsetTimeout_timers
    {F : Type} {s : Session F} {monitor : TimeoutMonitor UInt32}
    (h : s.timers = monitor.count)
    (msgId : UInt32) :
    (s.unsetTimeout msgId).timers = (monitor.unsetTimeout msgId).count := by
  funext id
  change Function.update s.timers msgId (s.timers msgId - 1) id =
    (Function.update monitor.timers msgId (monitor.timers msgId).tail id).length
  rw [h]
  by_cases hid : id = msgId
  · subst hid
    rw [Function.update_self, Function.update_self, List.length_tail]
    rfl
  · rw [Function.update_of_ne hid, Function.update_of_ne hid]
    rfl

/-- A monitor with its timers: the id that each of them was set for, those whose interval has
elapsed, and those that UnsetTimeout took out of their list before that. -/
structure Timeouts (ID : Type) extends TimeoutMonitor ID where
  ids : List ID
  fired : List Nat
  cancelled : List Nat

inductive TimeoutEvent (ID : Type)
  | setTimeout (msgId : ID) (timeout : Int32)
  | unsetTimeout (msgId : ID)
  | elapsed (timer : Nat)

namespace Timeouts

variable {ID : Type}

/-- A new monitor. -/
def new : Timeouts ID where
  timers _ := []
  ids := []
  fired := []
  cancelled := []

/-- The timers that UnsetTimeout cancels. -/
def cancels (s : Timeouts ID) (msgId : ID) : List Nat :=
  (s.timers msgId).head?.toList.filter fun timer => timer ∉ s.fired

/-- One event. An interval that is not positive is an exception, in front of everything else. A
timer fires once. -/
def step [DecidableEq ID] (s : Timeouts ID) : TimeoutEvent ID → Option (Timeouts ID)
  | .setTimeout msgId timeout =>
      if TimeoutMonitor.interval timeout ≤ 0 then some s
      else some { s with
        toTimeoutMonitor := s.toTimeoutMonitor.setTimeout msgId s.ids.length
        ids := s.ids ++ [msgId] }
  | .unsetTimeout msgId =>
      some { s with
        toTimeoutMonitor := s.toTimeoutMonitor.unsetTimeout msgId
        cancelled := s.cancelled ++ s.cancels msgId }
  | .elapsed timer =>
      if timer < s.ids.length ∧ timer ∉ s.fired then
        some { s with fired := s.fired ++ [timer] }
      else none

/-- Set, neither fired nor cancelled. -/
structure Pending (s : Timeouts ID) (msgId : ID) (timer : Nat) : Prop where
  set : s.ids[timer]? = some msgId
  not_fired : timer ∉ s.fired
  not_cancelled : timer ∉ s.cancelled

/-- UnsetTimeout cancels the oldest pending time-out of its id, and a timer that fires, which
calls the callback, is not a cancelled one. -/
def Right [DecidableEq ID] (s : Timeouts ID) : TimeoutEvent ID → Prop
  | .setTimeout _ _ => True
  | .unsetTimeout msgId =>
      ∀ timer, Minimal (s.Pending msgId) timer → timer ∈ s.cancels msgId
  | .elapsed timer => (s.step (.elapsed timer)).isSome → timer ∉ s.cancelled

/-- If UnsetTimeout finds a timer that has not fired then the first one has not, and a timer
that fires is still in its list. -/
def Keeps (s : Timeouts ID) : TimeoutEvent ID → Prop
  | .setTimeout _ _ => True
  | .unsetTimeout msgId =>
      (∃ timer ∈ s.timers msgId, timer ∉ s.fired) →
        ∀ timer, (s.timers msgId).head? = some timer → timer ∉ s.fired
  | .elapsed timer =>
      ∀ msgId, s.ids[timer]? = some msgId → timer ∈ s.fired ∨ timer ∈ s.timers msgId

/-- The lists have the timers in the order in which they were started, and a pending one is
in its list. One that is cancelled is in no list. -/
structure Inv (s : Timeouts ID) : Prop where
  sorted : ∀ msgId, (s.timers msgId).Pairwise (· < ·)
  set : ∀ msgId, ∀ timer ∈ s.timers msgId, s.ids[timer]? = some msgId
  mem_of_pending : ∀ msgId timer, s.Pending msgId timer → timer ∈ s.timers msgId
  cancelled_lt : ∀ timer ∈ s.cancelled, timer < s.ids.length
  cancelled_out : ∀ timer ∈ s.cancelled, ∀ msgId, timer ∉ s.timers msgId

section Steps

variable {s : Timeouts ID}

theorem inv_new :
    Inv (new : Timeouts ID) where
  sorted _ := .nil
  set _ _ h := by
    cases h
  mem_of_pending _ _ h := by
    cases h.set
  cancelled_lt _ h := by
    cases h
  cancelled_out _ h := by
    cases h

theorem Inv.timer_lt
    (hs : s.Inv)
    {msgId : ID} {timer : Nat}
    (h : timer ∈ s.timers msgId) :
    timer < s.ids.length :=
  (List.getElem?_eq_some_iff.mp (hs.set msgId timer h)).1

theorem mem_cancels_iff
    {msgId : ID} {timer : Nat} :
    timer ∈ s.cancels msgId ↔ (s.timers msgId).head? = some timer ∧ timer ∉ s.fired := by
  simp [cancels]

/-- A timer that has not fired is pending as long as it is in its list. -/
theorem Inv.pending_iff
    (hs : s.Inv)
    {msgId : ID} {timer : Nat}
    (hset : s.ids[timer]? = some msgId)
    (hfired : timer ∉ s.fired) :
    timer ∉ s.cancelled ↔ timer ∈ s.timers msgId := by
  constructor
  · intro hcancelled
    exact hs.mem_of_pending msgId timer ⟨hset, hfired, hcancelled⟩
  · intro hmem hcancelled
    exact hs.cancelled_out timer hcancelled msgId hmem

theorem Inv.elapsed
    (hs : s.Inv)
    (timer : Nat) :
    Inv { s with fired := s.fired ++ [timer] } where
  sorted := hs.sorted
  set := hs.set
  mem_of_pending id t h :=
    hs.mem_of_pending id t
      ⟨h.set, fun hfired => h.not_fired (List.mem_append_left _ hfired), h.not_cancelled⟩
  cancelled_lt := hs.cancelled_lt
  cancelled_out := hs.cancelled_out

variable [DecidableEq ID]

/-- The new timer is the last one of its list. -/
theorem Inv.setTimeout
    (hs : s.Inv)
    (msgId : ID) :
    Inv { s with
      toTimeoutMonitor := s.toTimeoutMonitor.setTimeout msgId s.ids.length
      ids := s.ids ++ [msgId] } := by
  have hmem : ∀ id timer, timer ∈ (s.toTimeoutMonitor.setTimeout msgId s.ids.length).timers id ↔
      timer ∈ s.timers id ∨ id = msgId ∧ timer = s.ids.length := by
    intro id timer
    by_cases hid : id = msgId
    · subst hid
      simp [TimeoutMonitor.setTimeout]
    · simp [TimeoutMonitor.setTimeout, hid]
  constructor
  case sorted =>
    intro id
    by_cases hid : id = msgId
    · subst hid
      simp only [TimeoutMonitor.setTimeout, Function.update_self]
      refine List.pairwise_append.mpr ⟨hs.sorted id, List.pairwise_singleton _ _, ?_⟩
      intro a ha b hb
      rw [List.mem_singleton.mp hb]
      exact hs.timer_lt ha
    · simp only [TimeoutMonitor.setTimeout, Function.update_of_ne hid]
      exact hs.sorted id
  case set =>
    intro id timer h
    rcases (hmem id timer).mp h with hold | ⟨rfl, rfl⟩
    · exact List.getElem?_append_left (hs.timer_lt hold) ▸ hs.set id timer hold
    · exact List.getElem?_concat_length
  case mem_of_pending =>
    intro id timer h
    refine (hmem id timer).mpr ?_
    have hset : (s.ids ++ [msgId])[timer]? = some id := h.set
    rcases lt_trichotomy timer s.ids.length with hlt | rfl | hgt
    · rw [List.getElem?_append_left hlt] at hset
      exact .inl (hs.mem_of_pending id timer ⟨hset, h.not_fired, h.not_cancelled⟩)
    · rw [List.getElem?_concat_length] at hset
      exact .inr ⟨(Option.some.inj hset).symm, rfl⟩
    · rw [List.getElem?_eq_none (by simp; omega)] at hset
      cases hset
  case cancelled_lt =>
    intro timer h
    have hlt := hs.cancelled_lt timer h
    simp only [List.length_append]
    omega
  case cancelled_out =>
    intro timer h id hin
    have hlt := hs.cancelled_lt timer h
    rcases (hmem id timer).mp hin with hold | ⟨-, rfl⟩
    · exact hs.cancelled_out timer h id hold
    · exact Nat.lt_irrefl _ hlt

/-- The first timer leaves its list, and it is not pending behind that. -/
theorem Inv.unsetTimeout
    (hs : s.Inv)
    (msgId : ID) :
    Inv { s with
      toTimeoutMonitor := s.toTimeoutMonitor.unsetTimeout msgId
      cancelled := s.cancelled ++ s.cancels msgId } := by
  have hsub : ∀ id, ((s.toTimeoutMonitor.unsetTimeout msgId).timers id).Sublist (s.timers id) := by
    intro id
    by_cases hid : id = msgId
    · subst hid
      simp [TimeoutMonitor.unsetTimeout, List.tail_sublist]
    · simp [TimeoutMonitor.unsetTimeout, hid]
  constructor
  case sorted =>
    intro id
    exact (hs.sorted id).sublist (hsub id)
  case set =>
    intro id timer h
    exact hs.set id timer ((hsub id).subset h)
  case mem_of_pending =>
    intro id timer h
    obtain ⟨hold, hnew⟩ : timer ∉ s.cancelled ∧ timer ∉ s.cancels msgId := by
      simpa only [List.mem_append, not_or] using h.not_cancelled
    have hmem := hs.mem_of_pending id timer ⟨h.set, h.not_fired, hold⟩
    by_cases hid : id = msgId
    · subst hid
      simp only [TimeoutMonitor.unsetTimeout, Function.update_self]
      cases hlist : s.timers id with
      | nil =>
          rw [hlist] at hmem
          cases hmem
      | cons first rest =>
          rw [hlist] at hmem
          rcases List.mem_cons.mp hmem with rfl | hrest
          · have hhead : (s.timers id).head? = some timer := by
              rw [hlist]
              rfl
            have hfired : timer ∉ s.fired := h.not_fired
            exact absurd (mem_cancels_iff.mpr ⟨hhead, hfired⟩) hnew
          · exact hrest
    · simpa only [TimeoutMonitor.unsetTimeout, Function.update_of_ne hid] using hmem
  case cancelled_lt =>
    intro timer h
    rcases List.mem_append.mp h with hold | hnew
    · exact hs.cancelled_lt timer hold
    · exact hs.timer_lt (List.mem_of_head? (mem_cancels_iff.mp hnew).1)
  case cancelled_out =>
    intro timer h id hin
    rcases List.mem_append.mp h with hold | hnew
    · exact hs.cancelled_out timer hold id ((hsub id).subset hin)
    · -- the timer was the first one of the list of its own id, and is in no other one
      have hhead := (mem_cancels_iff.mp hnew).1
      have hid : id = msgId := by
        have hset := hs.set id timer ((hsub id).subset hin)
        rw [hs.set msgId timer (List.mem_of_head? hhead)] at hset
        exact (Option.some.inj hset).symm
      subst hid
      obtain ⟨rest, hlist⟩ := List.head?_eq_some_iff.mp hhead
      have hsorted := hs.sorted id
      rw [hlist] at hsorted
      simp only [TimeoutMonitor.unsetTimeout, Function.update_self, hlist, List.tail_cons] at hin
      exact Nat.lt_irrefl _ ((List.pairwise_cons.mp hsorted).1 timer hin)

/-- Every event keeps the lists as they should be. -/
theorem Inv.step
    (hs : s.Inv)
    {e : TimeoutEvent ID} {s' : Timeouts ID}
    (hstep : s.step e = some s') :
    s'.Inv := by
  cases e with
  | setTimeout msgId timeout =>
      simp only [Timeouts.step] at hstep
      split_ifs at hstep
      · cases hstep
        exact hs
      · cases hstep
        exact hs.setTimeout msgId
  | unsetTimeout msgId =>
      cases hstep
      exact hs.unsetTimeout msgId
  | elapsed timer =>
      simp only [Timeouts.step] at hstep
      split_ifs at hstep
      cases hstep
      exact hs.elapsed timer

/-- UnsetTimeout cancels the oldest pending time-out, if a fired one is not in front of it. -/
theorem unset_right_iff
    (hs : s.Inv)
    (msgId : ID) :
    s.Right (.unsetTimeout msgId) ↔ s.Keeps (.unsetTimeout msgId) := by
  constructor
  · rintro hright ⟨timer, hmem, hfired⟩ first hfirst
    have hpending : s.Pending msgId timer :=
      ⟨hs.set msgId timer hmem, hfired, (hs.pending_iff (hs.set msgId timer hmem) hfired).mpr hmem⟩
    obtain ⟨oldest, -, holdest⟩ :=
      exists_minimal_le_of_wellFoundedLT (s.Pending msgId) timer hpending
    obtain ⟨hhead, hnot⟩ := mem_cancels_iff.mp (hright oldest holdest)
    obtain rfl := Option.some.inj (hhead.symm.trans hfirst)
    exact hnot
  · intro hkeeps timer holdest
    have hmem := hs.mem_of_pending msgId timer holdest.prop
    obtain ⟨first, rest, hlist⟩ := List.exists_cons_of_ne_nil (List.ne_nil_of_mem hmem)
    have hhead : (s.timers msgId).head? = some first := by
      rw [hlist]
      rfl
    have hfired : first ∉ s.fired := hkeeps ⟨timer, hmem, holdest.prop.not_fired⟩ first hhead
    have hin := List.mem_of_head? hhead
    have hset := hs.set msgId first hin
    have hpending : s.Pending msgId first := ⟨hset, hfired, (hs.pending_iff hset hfired).mpr hin⟩
    have hle : first ≤ timer := by
      have hsorted := hs.sorted msgId
      rw [hlist] at hmem hsorted
      rcases List.mem_cons.mp hmem with rfl | hrest
      · exact Nat.le_refl _
      · exact ((List.pairwise_cons.mp hsorted).1 timer hrest).le
    obtain rfl := le_antisymm hle (holdest.le_of_le hpending hle)
    exact mem_cancels_iff.mpr ⟨hhead, hfired⟩

theorem elapsed_right_iff
    (hs : s.Inv)
    (timer : Nat) :
    s.Right (.elapsed timer) ↔ s.Keeps (.elapsed timer) := by
  have hsome : (s.step (.elapsed timer)).isSome ↔ timer < s.ids.length ∧ timer ∉ s.fired := by
    simp [Timeouts.step]
  constructor
  · intro hright msgId hset
    by_cases hfired : timer ∈ s.fired
    · exact .inl hfired
    · have hlt := (List.getElem?_eq_some_iff.mp hset).1
      exact .inr ((hs.pending_iff hset hfired).mp (hright (hsome.mpr ⟨hlt, hfired⟩)))
  · intro hkeeps hpossible
    obtain ⟨hlt, hfired⟩ := hsome.mp hpossible
    have hset : s.ids[timer]? = some s.ids[timer] := List.getElem?_eq_getElem hlt
    exact (hs.pending_iff hset hfired).mpr ((hkeeps _ hset).resolve_left hfired)

end Steps

section Runs

variable [DecidableEq ID]

/-- In a run of a new monitor each UnsetTimeout cancels the oldest pending time-out, and the
callback of a cancelled one is never called, exactly if each UnsetTimeout that finds a timer
that has not fired finds such a one in front, and no timer fires outside its list. -/
theorem cancelled_never_called_iff
    (events : List (TimeoutEvent ID)) :
    Transition.Along step Right (new : Timeouts ID) events ↔
      Transition.Along step Keeps (new : Timeouts ID) events := by
  refine Transition.along_iff (D := fun _ _ => True) Inv ?_ ?_ inv_new
    (Transition.along_of_forall (fun _ _ => trivial) _ _)
  · intro s e hs _
    cases e with
    | setTimeout msgId timeout =>
        exact Iff.rfl
    | unsetTimeout msgId =>
        exact unset_right_iff hs msgId
    | elapsed timer =>
        exact elapsed_right_iff hs timer
  · intro s e s' hs _ _ hstep
    exact hs.step hstep

end Runs

/-- The answer to a message comes in time, and the timer fires later all the same. -/
theorem cancelled_called :
    ¬ Transition.Along step Right (new : Timeouts UInt32)
      [.setTimeout 1 5, .unsetTimeout 1, .elapsed 0] := by
  rintro ⟨-, hrest⟩
  obtain ⟨-, hrest⟩ := hrest _ rfl
  obtain ⟨hright, -⟩ := hrest _ rfl
  exact hright (by decide) (by decide)

end Timeouts

end Unity
end Gamnet
