import Gamnet.Unity.Pump

/-!
# The index of the send queue

RemoveSentPacket takes packets from the front by their msg_seq alone, and moves the index back
by one for each of them, without a look at the index. An answer can come when the completion
of the send has not, and it can be taken when a reconnect has put the packets behind the index
again. Then the index gets negative.

In a run the index stays in the queue, and only packets in front of it are removed, exactly if
no answer acknowledges the packet at the index with all packets in front of it
(`send_index_valid_iff`).
-/

namespace Gamnet
namespace Unity
namespace Client

section Queue

variable {s s' : Client}

/-- The index is in the queue or at its end. -/
structure Valid (s : Client) : Prop where
  nonneg : 0 ≤ s.sendQueueIdx
  le_length : s.sendQueueIdx ≤ s.sendQueue.length

/-- What every call and callback but RemoveSentPacket does to the index. -/
structure Moves (s s' : Client) : Prop where
  nonneg : 0 ≤ s.sendQueueIdx → 0 ≤ s'.sendQueueIdx
  le_length : s.sendQueueIdx ≤ s.sendQueue.length → s'.sendQueueIdx ≤ s'.sendQueue.length

theorem Moves.of_eq
    (hidx : s'.sendQueueIdx = s.sendQueueIdx)
    (hlength : s.sendQueue.length ≤ s'.sendQueue.length) :
    Moves s s' where
  nonneg h := by
    rw [hidx]
    exact h
  le_length h := by
    rw [hidx]
    omega

theorem Moves.trans
    {s₁ : Client}
    (h₁ : Moves s s₁)
    (h₂ : Moves s₁ s') :
    Moves s s' where
  nonneg h := h₂.nonneg (h₁.nonneg h)
  le_length h := h₂.le_length (h₁.le_length h)

theorem Valid.of_moves
    (hs : s.Valid)
    (h : Moves s s') :
    s'.Valid where
  nonneg := h.nonneg hs.nonneg
  le_length := h.le_length hs.le_length

/-- There is a packet at the index. -/
theorem idx_lt_of_current
    {packet : Packet}
    (h : s.current = some packet) :
    0 ≤ s.sendQueueIdx ∧ s.sendQueueIdx < s.sendQueue.length := by
  obtain ⟨hnonneg, hget⟩ := current_eq_some_iff.mp h
  have hlt := (List.getElem?_eq_some_iff.mp hget).1
  omega

theorem beginSend_queue
    (s : Client)
    (bytes : List UInt8)
    (msgSeq : UInt32)
    (throws : Bool) :
    (s.beginSend bytes msgSeq throws).1.sendQueue = s.sendQueue ∧
      (s.beginSend bytes msgSeq throws).1.sendQueueIdx = s.sendQueueIdx := by
  unfold beginSend
  split <;> exact ⟨rfl, rfl⟩

theorem beginCurrent_queue
    (s : Client)
    (throws : Bool) :
    (s.beginCurrent throws).1.sendQueue = s.sendQueue ∧
      (s.beginCurrent throws).1.sendQueueIdx = s.sendQueueIdx := by
  unfold beginCurrent
  split
  · exact ⟨rfl, rfl⟩
  · exact beginSend_queue s _ _ throws

/-- SendMsg of a packet puts it at the end of the queue. -/
theorem sendPacket_queue
    (s : Client)
    (packet : Packet)
    (throws : Bool) :
    (s.sendPacket packet throws).1.sendQueue = s.sendQueue ++ [packet] ∧
      (s.sendPacket packet throws).1.sendQueueIdx = s.sendQueueIdx := by
  unfold sendPacket
  dsimp only
  split
  · exact beginCurrent_queue { s with sendQueue := s.sendQueue ++ [packet] } throws
  · exact ⟨rfl, rfl⟩

theorem moves_sendPacket
    (s : Client)
    (packet : Packet)
    (throws : Bool) :
    Moves s (s.sendPacket packet throws).1 := by
  obtain ⟨hqueue, hidx⟩ := sendPacket_queue s packet throws
  refine .of_eq hidx ?_
  rw [hqueue, List.length_append]
  exact Nat.le_add_right _ _

theorem keptByQueueing_moves
    (s : Client) :
    KeptByQueueing (Moves s) where
  number _ h := h.trans (.of_eq rfl (Nat.le_refl _))
  send s₁ packet throws _ h := h.trans (moves_sendPacket s₁ packet throws)

theorem moves_sendRequest
    (s : Client)
    (msgId : UInt32)
    (reliable throws : Bool) :
    Moves s (s.sendRequest msgId reliable throws).1 :=
  (keptByQueueing_moves s).sendRequest (.of_eq rfl (Nat.le_refl _)) msgId reliable throws

theorem valid_connect
    (s : Client)
    (outcome : Connecting) :
    (s.connect outcome).Valid := by
  cases outcome <;> exact ⟨Int.le_refl 0, Int.le_refl 0⟩

theorem valid_resend
    (s : Client)
    (request : List UInt8)
    (throws : Bool) :
    (s.resend request throws).Valid := by
  unfold resend
  dsimp only
  split
  · exact ⟨Int.le_refl 0, Int.le_refl 0⟩
  · rename_i packet _
    have hvalid := Valid.of_moves (s := { s with
      state := .connected
      sendQueue := []
      sendQueueIdx := 0
      msgSeq := s.msgSeq + 1 }) ⟨Int.le_refl 0, Int.le_refl 0⟩ (moves_sendPacket _ packet throws)
    split
    · rename_i s' heq
      rw [heq] at hvalid
      exact ⟨hvalid.nonneg, hvalid.le_length⟩
    · rename_i s' heq
      rw [heq] at hvalid
      refine ⟨hvalid.nonneg, ?_⟩
      have hle : s'.sendQueueIdx ≤ s'.sendQueue.length := hvalid.le_length
      simp only [List.length_append]
      omega

theorem moves_reconnect
    (s : Client)
    (throws : Bool) :
    Moves s (s.reconnect throws).1 := by
  unfold reconnect
  dsimp only
  split_ifs <;> exact .of_eq rfl (Nat.le_refl _)

theorem moves_sendMsg
    (s : Client)
    (msg : Msg)
    (reliable connectThrows throws : Bool) :
    Moves s (s.sendMsg msg reliable connectThrows throws) :=
  (keptByQueueing_moves s).sendMsg (moves_reconnect s connectThrows) msg reliable throws

theorem moves_beginSend
    (s : Client)
    (bytes : List UInt8)
    (msgSeq : UInt32)
    (throws : Bool) :
    Moves s (s.beginSend bytes msgSeq throws).1 := by
  obtain ⟨hqueue, hidx⟩ := beginSend_queue s bytes msgSeq throws
  exact .of_eq hidx (by rw [hqueue])

theorem moves_beginCurrent
    (s : Client)
    (throws : Bool) :
    Moves s (s.beginCurrent throws).1 := by
  obtain ⟨hqueue, hidx⟩ := beginCurrent_queue s throws
  exact .of_eq hidx (by rw [hqueue])

/-- The index passes a packet that is there. -/
theorem moves_pass
    {packet : Packet}
    (hcurrent : s.current = some packet)
    (packet' : Packet) :
    Moves s (s.pass packet') := by
  obtain ⟨hnonneg, hlt⟩ := idx_lt_of_current hcurrent
  unfold pass
  split_ifs
  · refine ⟨fun _ => ?_, fun _ => ?_⟩
    · change 0 ≤ s.sendQueueIdx + 1
      omega
    · simp only [List.length_set]
      omega
  · refine ⟨fun h => h, fun _ => ?_⟩
    have herase : (s.sendQueue.eraseIdx s.sendQueueIdx.toNat).length = s.sendQueue.length - 1 :=
      List.length_eraseIdx_of_lt (by omega)
    simp only [herase]
    omega

/-- The completion of a send. -/
theorem moves_advance
    (s : Client)
    (written : Nat)
    (throws : Bool) :
    Moves s (s.advance written throws) := by
  unfold advance
  split
  · exact .of_eq rfl (Nat.le_refl _)
  rename_i packet hcurrent
  have hpass := moves_pass hcurrent (packet.skip written)
  have hset : Moves s
      { s with sendQueue := s.sendQueue.set s.sendQueueIdx.toNat (packet.skip written) } :=
    .of_eq rfl (Nat.le_of_eq List.length_set.symm)
  dsimp only
  split_ifs
  · exact hset.trans (moves_beginSend _ _ _ throws)
  · exact hpass.trans (moves_beginCurrent _ throws)
  · exact hpass

theorem moves_callbackSendMsg
    {op : Nat} {written : Option Nat} {throws : Bool}
    (h : s.callbackSendMsg op written throws = some s') :
    Moves s s' := by
  have hdone : Moves s { s with sends := s.sends.eraseIdx op } := .of_eq rfl (Nat.le_refl _)
  obtain ⟨_, _, ⟨_, rfl⟩ | ⟨_, _, rfl⟩ | ⟨n, _, _, rfl⟩⟩ := callbackSendMsg_cases h
  · exact hdone
  · exact hdone
  · exact hdone.trans (moves_advance _ _ throws)

theorem moves_callbackConnect
    {socket : Nat} {connected throws : Bool}
    (h : s.callbackConnect socket connected throws = some s') :
    Moves s s' := by
  unfold callbackConnect at h
  dsimp only at h
  split_ifs at h
  · have hrequest := moves_sendRequest { s with
      connects := s.connects.erase socket
      socket := some socket
      state := .connected } 1 false throws
    split at h <;> rename_i s₁ heq <;> rw [heq] at hrequest <;> cases h
    · exact ⟨hrequest.nonneg, hrequest.le_length⟩
    · exact ⟨hrequest.nonneg, hrequest.le_length⟩
  · cases h
    exact .of_eq rfl (Nat.le_refl _)

theorem valid_callbackReconnect
    {socket : Nat} {connected : Bool} {request : List UInt8} {throws : Bool}
    (hs : s.Valid)
    (h : s.callbackReconnect socket connected request throws = some s') :
    s'.Valid := by
  unfold callbackReconnect at h
  dsimp only at h
  split_ifs at h
  · cases h
    exact valid_resend _ request throws
  · cases h
    exact ⟨hs.nonneg, hs.le_length⟩
  · cases h
    exact ⟨hs.nonneg, hs.le_length⟩

end Queue

section Answers

variable {s s' : Client}

/-- The packets that an answer removes are all in front of the index. -/
def RemovesSent (s : Client) : PumpEvent → Prop
  | .recvHeartBeatAns =>
      ∀ msgSeq answers, s.answers = msgSeq :: answers → s.acknowledged msgSeq ≤ s.sendQueueIdx
  | _ => True

/-- If there is a packet at the index, then it or one in front of it is newer than the answer. -/
def Stops (s : Client) (msgSeq : UInt32) : Prop :=
  s.sendQueueIdx < s.sendQueue.length →
    ∃ packet ∈ s.sendQueue.take (s.sendQueueIdx.toNat + 1), msgSeq < packet.msgSeq

/-- An answer that is taken does not acknowledge the packet at the index with all packets in
front of it. -/
def Acknowledges (s : Client) : PumpEvent → Prop
  | .recvHeartBeatAns => ∀ msgSeq answers, s.answers = msgSeq :: answers → s.Stops msgSeq
  | _ => True

/-- How far a condition holds from the front of a list. -/
theorem length_takeWhile_le_iff
    {α : Type} (p : α → Bool) (l : List α) (n : Nat) :
    (l.takeWhile p).length ≤ n ↔ (n < l.length → ∃ a ∈ l.take (n + 1), p a = false) := by
  induction l generalizing n with
  | nil =>
      simp
  | cons a l ih =>
      cases hp : p a with
      | false =>
          simp [hp]
      | true =>
          rw [List.takeWhile_cons_of_pos hp, List.take_succ_cons]
          cases n with
          | zero =>
              simp [hp]
          | succ n =>
              simp only [List.length_cons, Nat.add_le_add_iff_right, Nat.add_lt_add_iff_right,
                List.mem_cons, exists_eq_or_imp, hp, Bool.true_eq_false, false_or]
              exact ih n

theorem acknowledged_le_length
    (s : Client) (msgSeq : UInt32) :
    s.acknowledged msgSeq ≤ s.sendQueue.length :=
  (List.takeWhile_sublist _).length_le

theorem stops_iff
    (hs : s.Valid)
    (msgSeq : UInt32) :
    s.Stops msgSeq ↔ s.acknowledged msgSeq ≤ s.sendQueueIdx := by
  have hnonneg := hs.nonneg
  have hcast : s.acknowledged msgSeq ≤ s.sendQueueIdx ↔
      s.acknowledged msgSeq ≤ s.sendQueueIdx.toNat := by
    omega
  have hlt : s.sendQueueIdx < s.sendQueue.length ↔
      s.sendQueueIdx.toNat < s.sendQueue.length := by
    omega
  rw [hcast, Stops, acknowledged, length_takeWhile_le_iff, hlt]
  simp only [decide_eq_false_iff_not, UInt32.not_le]

/-- RemoveSentPacket leaves the index in the queue if all that it removes was in front of the
index. -/
theorem valid_removeSentPacket_iff
    (hs : s.Valid)
    (msgSeq : UInt32) :
    (s.removeSentPacket msgSeq).Valid ↔ s.acknowledged msgSeq ≤ s.sendQueueIdx := by
  have hle := acknowledged_le_length s msgSeq
  have hlength : (s.removeSentPacket msgSeq).sendQueue.length =
      s.sendQueue.length - s.acknowledged msgSeq := List.length_drop
  have hidx : (s.removeSentPacket msgSeq).sendQueueIdx =
      s.sendQueueIdx - s.acknowledged msgSeq := rfl
  have hinside := hs.le_length
  constructor
  · intro h
    have hnonneg := h.nonneg
    omega
  · intro h
    constructor <;> omega

/-- Every event but an answer that is taken leaves the index in the queue. -/
theorem Valid.step
    (hs : s.Valid)
    {e : PumpEvent}
    (he : e ≠ .recvHeartBeatAns)
    (h : s.step e = some s') :
    s'.Valid := by
  cases e with
  | connect outcome =>
      cases h
      exact valid_connect s outcome
  | connected socket connected throws =>
      exact hs.of_moves (moves_callbackConnect h)
  | reconnected socket connected request throws =>
      exact valid_callbackReconnect hs h
  | sendMsg msg reliable connectThrows throws =>
      cases h
      exact hs.of_moves (moves_sendMsg s msg reliable connectThrows throws)
  | sent op written throws =>
      exact hs.of_moves (moves_callbackSendMsg h)
  | heartBeat throws =>
      simp only [Client.step] at h
      split_ifs at h
      cases h
      exact hs.of_moves (moves_sendRequest s 3 true throws)
  | close =>
      cases h
      exact ⟨hs.nonneg, hs.le_length⟩
  | process msgSeq =>
      simp only [Client.step] at h
      split_ifs at h
      cases h
      exact ⟨hs.nonneg, hs.le_length⟩
  | answer =>
      cases h
      exact ⟨hs.nonneg, hs.le_length⟩
  | recvHeartBeatAns =>
      exact absurd rfl he

/-- What an answer leaves, if there is one. -/
theorem valid_step_iff
    (hs : s.Valid)
    (e : PumpEvent) :
    (∀ s', s.step e = some s' → s'.Valid) ↔ s.Acknowledges e := by
  by_cases he : e = .recvHeartBeatAns
  · subst he
    simp only [Client.step, Acknowledges]
    cases hanswers : s.answers with
    | nil =>
        simp
    | cons msgSeq answers =>
        have hpopped : ({ s with answers := answers } : Client).Valid :=
          ⟨hs.nonneg, hs.le_length⟩
        simp only [Option.some.injEq, forall_eq', List.cons.injEq, and_imp]
        rw [valid_removeSentPacket_iff hpopped]
        change s.acknowledged msgSeq ≤ s.sendQueueIdx ↔ _
        rw [← stops_iff hs]
        constructor
        · rintro hstops _ _ rfl rfl
          exact hstops
        · intro hstops
          exact hstops msgSeq answers rfl rfl
  · refine iff_of_true (fun s' h => hs.step he h) ?_
    cases e with
    | recvHeartBeatAns =>
        exact absurd rfl he
    | _ =>
        trivial

theorem removesSent_iff
    (hs : s.Valid)
    (e : PumpEvent) :
    s.RemovesSent e ↔ s.Acknowledges e := by
  cases e with
  | recvHeartBeatAns =>
      simp only [RemovesSent, Acknowledges, stops_iff hs]
  | _ =>
      exact Iff.rfl

end Answers

theorem valid_new :
    Valid new :=
  ⟨Int.le_refl 0, Int.le_refl 0⟩

/-- In a run the index is always in the queue or at its end, and RemoveSentPacket removes only
packets in front of it, exactly if no answer that is taken acknowledges the packet at the
index with all packets in front of it. -/
theorem send_index_valid_iff
    (events : List PumpEvent) :
    (Transition.Always step Valid new events ∧ Transition.Along step RemovesSent new events) ↔
      Transition.Along step Acknowledges new events := by
  have hvalid : Transition.Always step Valid new events ↔
      Transition.Along step Acknowledges new events := by
    refine Transition.always_iff_along Valid (fun _ hs => hs) ?_ ?_ valid_new
    · intro s e hs
      exact valid_step_iff hs e
    · intro s e s' hs he h
      exact (valid_step_iff hs e).mpr he s' h
  have hremoves : Transition.Along step RemovesSent new events ↔
      Transition.Along step Acknowledges new events := by
    refine Transition.along_iff (D := fun _ _ => True) Valid ?_ ?_ valid_new
      (Transition.along_of_forall (fun _ _ => trivial) _ _)
    · intro s e hs _
      exact removesSent_iff hs e
    · intro s e s' hs _ he h
      exact (valid_step_iff hs e).mpr he s' h
  rw [hvalid, hremoves, and_self]

/-- Two heartbeats are sent. The server processes the first one, and answers the second one with
the number of the first. The connection is lost, and a message makes a new one, on which the
first heartbeat is sent again. The answer is taken while that goes on. -/
def lateAnswer : List PumpEvent :=
  [.connect .started, .connected 0 true false, .sent 0 (some 10) false,
    .heartBeat false, .sent 0 (some 10) false, .process 2,
    .heartBeat false, .sent 0 (some 10) false, .answer, .process 3, .close,
    .sendMsg { msgId := 5, stored := [], size := 0 } true false false,
    .reconnected 1 true [0x7B, 0x7D] false, .sent 0 (some 12) false, .recvHeartBeatAns]

theorem send_index_not_valid :
    ¬ Transition.Always step Valid new lateAnswer := by
  intro h
  have hidx : (Transition.run step new lateAnswer).map sendQueueIdx = some (-1) := by
    decide +kernel
  obtain ⟨s, hrun, hnegative⟩ := Option.map_eq_some_iff.mp hidx
  have hnonneg := (h lateAnswer List.prefix_rfl s hrun).nonneg
  omega

end Client
end Unity
end Gamnet
