import Gamnet.Library.Buffer
import Gamnet.Lib.Transition

/-!
# The send queue of a link

AsyncSend runs as a closure on the strand of the link: it puts its buffer behind the
queue and starts a write if the queue was empty. The completion of a write takes the
front buffer out of the queue and starts the next write; a completion with an error
leaves the queue as it is. Closures and completions run one at a time, in any order
that the threads produce.

The operations that async_write was called for and that have not completed are a list,
so that it has to be proved that there is at most one.
-/

namespace Gamnet
namespace Network

/-- The queue of a link and the writes that have not completed. For the statements it
also tells the buffers in the order in which their closures ran, those that async_write
was called with, and whether a write completed with an error. -/
structure SendQueue where
  sendBuffers : List Buffer
  writes : List Buffer
  sent : List Buffer
  handed : List Buffer
  failed : Bool

namespace SendQueue

/-- The queue of a link that Link::Init prepared, whatever its last user left. -/
def init : SendQueue where
  sendBuffers := []
  writes := []
  sent := []
  handed := []
  failed := false

/-- FlushSend. -/
def flushSend (q : SendQueue) : SendQueue :=
  match q.sendBuffers with
  | [] => q
  | b :: _ => { q with writes := q.writes ++ [b], handed := q.handed ++ [b] }

/-- The closure of AsyncSend. -/
def asyncSend (q : SendQueue) (b : Buffer) : SendQueue :=
  let needFlush := q.sendBuffers.isEmpty
  let q := { q with sendBuffers := q.sendBuffers ++ [b], sent := q.sent ++ [b] }
  if needFlush then q.flushSend else q

/-- The completion handler of a write: an error leaves the queue to OnError, which does
not touch it. -/
def onWritten (q : SendQueue) (error : Bool) : SendQueue :=
  if error then { q with failed := true }
  else flushSend { q with sendBuffers := q.sendBuffers.tail }

/-- AsyncSend of an array of bytes: they go into a buffer of their own. Without one, and
where they do not fit into it, nothing is sent. -/
def bufferOf (created : Option Buffer) (bytes : List UInt8) : Option Buffer :=
  match created with
  | none => none
  | some b =>
      match b.append bytes with
      | .error _ => none
      | .ok b => some b

/-- What runs on the strand: closures of AsyncSend, of a buffer or of bytes, completions of
a pending write, and Link::Init when the link comes out of the pool again. -/
inductive Event
  | asyncSend (b : Buffer)
  | asyncSendBytes (created : Option Buffer) (bytes : List UInt8)
  | written (i : Nat) (error : Bool)
  | init

/-- One event. Pending writes keep the link out of the pool. -/
def step (q : SendQueue) : Event → Option SendQueue
  | .asyncSend b => some (q.asyncSend b)
  | .asyncSendBytes created bytes =>
      match bufferOf created bytes with
      | none => some q
      | some b => some (q.asyncSend b)
  | .written i error =>
      if i < q.writes.length then
        some (onWritten { q with writes := q.writes.eraseIdx i } error)
      else none
  | .init => if q.writes.isEmpty then some init else none

/-- The events in order. -/
abbrev run : SendQueue → List Event → Option SendQueue :=
  Transition.run step

/-- The bytes of a list of buffers. -/
def bytesOf (buffers : List Buffer) : List UInt8 :=
  buffers.flatMap Buffer.unread

/-- The buffers whose closures ran since the link was prepared last, behind one more event. -/
def Event.sentBehind (sent : List Buffer) : Event → List Buffer
  | .asyncSend b => sent ++ [b]
  | .asyncSendBytes created bytes => sent ++ (bufferOf created bytes).toList
  | .written _ _ => sent
  | .init => []

/-- Whether a write failed since the link was prepared last, behind one more event. -/
def Event.failedBehind (failed : Bool) : Event → Bool
  | .asyncSend _ => failed
  | .asyncSendBytes _ _ => failed
  | .written _ error => failed || error
  | .init => false

/-- The buffers of a run, in the order in which their closures ran. -/
def sentBuffers (events : List Event) : List Buffer :=
  events.foldl Event.sentBehind []

/-- A write of the run failed. -/
def writeFailed (events : List Event) : Bool :=
  events.foldl Event.failedBehind false

/-- The front buffer is being written, unless a write failed, and async_write was called
with what was sent up to the front buffer. -/
structure Pumping (q : SendQueue) : Prop where
  writes : q.writes = if q.failed then [] else q.sendBuffers.take 1
  front : q.failed = true → q.sendBuffers ≠ []
  handed : q.handed ++ q.sendBuffers.tail = q.sent

variable {q q' : SendQueue}

theorem flushSend_sent
    (q : SendQueue) :
    q.flushSend.sent = q.sent ∧ q.flushSend.failed = q.failed := by
  unfold flushSend
  split
  · exact ⟨rfl, rfl⟩
  · exact ⟨rfl, rfl⟩

theorem asyncSend_sent
    (q : SendQueue) (b : Buffer) :
    (q.asyncSend b).sent = q.sent ++ [b] ∧ (q.asyncSend b).failed = q.failed := by
  simp only [SendQueue.asyncSend]
  split
  · exact flushSend_sent _
  · exact ⟨rfl, rfl⟩

/-- What a step tells of its event. -/
theorem told_step
    {e : Event}
    (hstep : q.step e = some q') :
    q'.sent = e.sentBehind q.sent ∧ q'.failed = e.failedBehind q.failed := by
  cases e with
  | asyncSend b =>
      cases hstep
      exact asyncSend_sent q b
  | asyncSendBytes created bytes =>
      simp only [SendQueue.step] at hstep
      simp only [Event.sentBehind, Event.failedBehind]
      cases hmade : bufferOf created bytes with
      | none =>
          rw [hmade] at hstep
          cases hstep
          exact ⟨(List.append_nil _).symm, rfl⟩
      | some b =>
          rw [hmade] at hstep
          cases hstep
          exact asyncSend_sent q b
  | written i error =>
      simp only [SendQueue.step] at hstep
      split at hstep
      · cases hstep
        cases error with
        | true => exact ⟨rfl, (Bool.or_true _).symm⟩
        | false =>
            obtain ⟨hsent, hfailed⟩ :=
              flushSend_sent { q with
                writes := q.writes.eraseIdx i, sendBuffers := q.sendBuffers.tail }
            exact ⟨hsent, hfailed.trans (Bool.or_false _).symm⟩
      · cases hstep
  | init =>
      simp only [SendQueue.step] at hstep
      split at hstep
      · cases hstep
        exact ⟨rfl, rfl⟩
      · cases hstep

/-- The run lemma of what is told. -/
theorem told_run
    {events : List Event}
    (hrun : run q events = some q') :
    q'.sent = events.foldl Event.sentBehind q.sent ∧
      q'.failed = events.foldl Event.failedBehind q.failed := by
  induction events generalizing q with
  | nil =>
      cases hrun
      exact ⟨rfl, rfl⟩
  | cons e events ih =>
      obtain ⟨q₁, hstep, hrest⟩ := Transition.exists_of_run_cons hrun
      obtain ⟨hsent, hfailed⟩ := told_step hstep
      rw [List.foldl_cons, List.foldl_cons, ← hsent, ← hfailed]
      exact ih hrest

theorem pumping_init :
    Pumping init where
  writes := rfl
  front := by simp [init]
  handed := rfl

theorem Pumping.asyncSend
    (h : Pumping q)
    (b : Buffer) :
    Pumping (q.asyncSend b) := by
  have hwrites := h.writes
  have hhanded := h.handed
  cases hqueue : q.sendBuffers with
  | nil =>
      have hfailed : q.failed = false := by
        cases hfailed : q.failed with
        | false => rfl
        | true => exact absurd hqueue (h.front hfailed)
      rw [hqueue, List.tail_nil, List.append_nil] at hhanded
      constructor
      · simp [SendQueue.asyncSend, flushSend, hqueue, hfailed, hwrites]
      · simp [SendQueue.asyncSend, flushSend, hqueue]
      · simp [SendQueue.asyncSend, flushSend, hqueue, hhanded]
  | cons front rest =>
      rw [hqueue] at hwrites hhanded
      constructor
      · simpa [SendQueue.asyncSend, hqueue] using hwrites
      · simp [SendQueue.asyncSend, hqueue]
      · simpa [SendQueue.asyncSend, hqueue, ← List.append_assoc] using hhanded

/-- The completion of the only write there is. -/
theorem Pumping.written
    (h : Pumping q)
    {i : Nat}
    (hi : i < q.writes.length)
    (error : Bool) :
    Pumping (onWritten { q with writes := q.writes.eraseIdx i } error) := by
  have hwrites := h.writes
  have hhanded := h.handed
  have hfailed : q.failed = false := by
    cases hfailed : q.failed with
    | false => rfl
    | true => simp [hwrites, hfailed] at hi
  cases hqueue : q.sendBuffers with
  | nil =>
      simp [hwrites, hqueue] at hi
  | cons front rest =>
      rw [hqueue, List.tail_cons] at hhanded
      have hfront : q.writes = [front] := by
        simp [hwrites, hfailed, hqueue]
      have hzero : i = 0 := by
        rw [hfront] at hi
        simpa using hi
      subst hzero
      cases error with
      | true =>
          constructor
          · simp [onWritten, hfront]
          · simp [onWritten]
          · simpa [onWritten, hqueue] using hhanded
      | false =>
          cases rest with
          | nil =>
              constructor
              · simp [onWritten, flushSend, hfront, hfailed]
              · simp [onWritten, flushSend, hfailed]
              · simpa [onWritten, flushSend, hqueue] using hhanded
          | cons next rest =>
              constructor
              · simp [onWritten, flushSend, hfront, hfailed]
              · simp [onWritten, flushSend]
              · simpa [onWritten, flushSend, hqueue] using hhanded

theorem Pumping.step
    (h : Pumping q)
    {e : Event}
    (hstep : q.step e = some q') :
    Pumping q' := by
  cases e with
  | asyncSend b =>
      cases hstep
      exact h.asyncSend b
  | asyncSendBytes created bytes =>
      simp only [SendQueue.step] at hstep
      split at hstep
      · cases hstep
        exact h
      · rename_i b _
        cases hstep
        exact h.asyncSend b
  | written i error =>
      simp only [SendQueue.step] at hstep
      split at hstep
      · rename_i hi
        cases hstep
        exact h.written hi error
      · cases hstep
  | init =>
      simp only [SendQueue.step] at hstep
      split at hstep
      · cases hstep
        exact pumping_init
      · cases hstep

/-- In every run the front buffer is being written until a write fails. -/
theorem pumping_run
    {events : List Event}
    (hrun : run init events = some q) :
    Pumping q :=
  Transition.run_invariant Pumping (fun _ _ _ h hstep => h.step hstep) pumping_init hrun

/-- The completion of a write finds its buffer in the queue. -/
theorem Pumping.front_of_write
    (h : Pumping q)
    {b : Buffer}
    (hb : b ∈ q.writes) :
    q.sendBuffers.head? = some b := by
  rw [h.writes] at hb
  cases hfailed : q.failed with
  | true => simp [hfailed] at hb
  | false =>
      cases hqueue : q.sendBuffers with
      | nil => simp [hqueue] at hb
      | cons front rest =>
          have heq : b = front := by
            simpa [hfailed, hqueue] using hb
          rw [heq, List.head?_cons]

/-- Behind a failure a closure finds a queue that is not empty. -/
theorem Pumping.asyncSend_failed
    (h : Pumping q)
    (hfailed : q.failed = true)
    (b : Buffer) :
    (q.asyncSend b).failed = true ∧ (q.asyncSend b).handed = q.handed := by
  cases hqueue : q.sendBuffers with
  | nil => exact absurd hqueue (h.front hfailed)
  | cons front rest => simp [SendQueue.asyncSend, hqueue, hfailed]

/-- Behind a failure nothing is written until the link is prepared again. -/
theorem Pumping.step_failed
    (h : Pumping q)
    (hfailed : q.failed = true)
    {e : Event}
    (he : e ≠ .init)
    (hstep : q.step e = some q') :
    q'.failed = true ∧ q'.handed = q.handed := by
  cases e with
  | asyncSend b =>
      cases hstep
      exact h.asyncSend_failed hfailed b
  | asyncSendBytes created bytes =>
      simp only [SendQueue.step] at hstep
      split at hstep
      · cases hstep
        exact ⟨hfailed, rfl⟩
      · rename_i b _
        cases hstep
        exact h.asyncSend_failed hfailed b
  | written i error =>
      simp [SendQueue.step, h.writes, hfailed] at hstep
  | init =>
      exact absurd rfl he

/-- The run lemma of a failure. -/
theorem Pumping.run_failed
    (h : Pumping q)
    (hfailed : q.failed = true)
    {events : List Event}
    (hinit : Event.init ∉ events)
    (hrun : run q events = some q') :
    q'.handed = q.handed := by
  induction events generalizing q with
  | nil =>
      cases hrun
      rfl
  | cons e events ih =>
      obtain ⟨q₁, hstep, hrest⟩ := Transition.exists_of_run_cons hrun
      have he : e ≠ .init := by
        rintro rfl
        exact hinit List.mem_cons_self
      obtain ⟨hfailed', hhanded⟩ := h.step_failed hfailed he hstep
      rw [ih (h.step hstep) hfailed' (fun hmem => hinit (List.mem_cons_of_mem e hmem)) hrest,
        hhanded]

/-- In every state of every run at most one write is pending, one is pending exactly
when the queue is not empty and no write of the run has failed, and it is for the front
buffer. async_write was called with the buffers of the run in the order of their closures,
up to the front of the queue, once with each. Behind a failure it is not called again. -/
theorem writes_in_order
    {events : List Event}
    (hrun : run init events = some q) :
    q.writes.length ≤ 1 ∧
      (q.writes ≠ [] ↔ q.sendBuffers ≠ [] ∧ writeFailed events = false) ∧
      (∀ b ∈ q.writes, q.sendBuffers.head? = some b) ∧
      q.handed ++ q.sendBuffers.tail = sentBuffers events ∧
      bytesOf q.handed ++ bytesOf q.sendBuffers.tail = bytesOf (sentBuffers events) ∧
      (writeFailed events = true → ∀ more q', Event.init ∉ more → run q more = some q' →
        q'.handed = q.handed) := by
  have h := pumping_run hrun
  obtain ⟨hsent, hfailed⟩ : q.sent = sentBuffers events ∧ q.failed = writeFailed events :=
    told_run hrun
  rw [← hsent, ← hfailed]
  refine ⟨?_, ?_, fun b hb => h.front_of_write hb, h.handed, ?_, ?_⟩
  · rw [h.writes]
    split
    · exact Nat.zero_le 1
    · exact List.length_take_le 1 _
  · rw [h.writes]
    cases q.failed <;> cases q.sendBuffers <;> simp
  · rw [bytesOf, bytesOf, bytesOf, ← h.handed, List.flatMap_append]
  · intro hfailed more q' hinit hmore
    exact h.run_failed hfailed hinit hmore

/-- Three buffers are sent, the first one is written and the second one fails. -/
def secondFails : List Event :=
  [.asyncSend (Buffer.ofData []), .asyncSend (Buffer.ofData [1]), .written 0 false,
    .written 0 true, .asyncSend (Buffer.ofData [2])]

theorem writes_in_order_second_fails :
    ∃ q, run init secondFails = some q ∧
      q.handed ++ q.sendBuffers.tail =
        [Buffer.ofData [], Buffer.ofData [1], Buffer.ofData [2]] ∧
      q.handed = [Buffer.ofData [], Buffer.ofData [1]] ∧
      ∀ more q', Event.init ∉ more → run q more = some q' → q'.handed = q.handed := by
  have hrun : run init secondFails = some _ := rfl
  obtain ⟨-, -, -, hhanded, -, hfailure⟩ := writes_in_order hrun
  exact ⟨_, hrun, hhanded, rfl, hfailure rfl⟩

end SendQueue

end Network
end Gamnet
