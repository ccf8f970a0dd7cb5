import Gamnet.Unity.Pump

/-!
# The sockets of the client

Connect and Reconnect create a socket, and their callbacks make it the current one. Sends are
begun on the current socket only, so that nothing is outstanding on a socket when it becomes
the current one (`Sockets.accept`). That holds in every run (`Sockets.step`).
-/

namespace Gamnet
namespace Unity
namespace Client

/-- The sends on the current socket. -/
def outstanding (s : Client) : List Operation :=
  s.sends.filter fun op => s.socket = some op.socket

/-- A socket that is being connected is a new one: nothing is sent on it, and it is not the
current one. A connection has a socket and a timer. -/
structure Sockets (s : Client) : Prop where
  connected : s.state = .connected → s.timer = true ∧ s.socket.isSome
  nodup : (s.connects ++ s.reconnects).Nodup
  pending_lt : ∀ k ∈ s.connects ++ s.reconnects, k < s.created
  socket_lt : ∀ k, s.socket = some k → k < s.created ∧ k ∉ s.connects ++ s.reconnects
  sends_lt : ∀ op ∈ s.sends, op.socket < s.created ∧ op.socket ∉ s.connects ++ s.reconnects

section Sockets

variable {s s' : Client}

/-- The sockets stay as they are, and sends may be begun on the current one. -/
structure Begins (s s' : Client) : Prop where
  state : s'.state = s.state
  socket : s'.socket = s.socket
  timer : s'.timer = s.timer
  created : s'.created = s.created
  connects : s'.connects = s.connects
  reconnects : s'.reconnects = s.reconnects
  sends : ∀ op ∈ s'.sends, op ∈ s.sends ∨ s.socket = some op.socket

theorem Begins.trans
    {s₁ : Client}
    (h₁ : Begins s s₁)
    (h₂ : Begins s₁ s') :
    Begins s s' where
  state := h₂.state.trans h₁.state
  socket := h₂.socket.trans h₁.socket
  timer := h₂.timer.trans h₁.timer
  created := h₂.created.trans h₁.created
  connects := h₂.connects.trans h₁.connects
  reconnects := h₂.reconnects.trans h₁.reconnects
  sends op hop := by
    rcases h₂.sends op hop with hop | hop
    · exact h₁.sends op hop
    · exact .inr (h₁.socket ▸ hop)

theorem Sockets.of_begins
    (hs : s.Sockets)
    (h : Begins s s') :
    s'.Sockets := by
  constructor
  case connected =>
    rw [h.state, h.timer, h.socket]
    exact hs.connected
  case nodup =>
    rw [h.connects, h.reconnects]
    exact hs.nodup
  case pending_lt =>
    rw [h.connects, h.reconnects, h.created]
    exact hs.pending_lt
  case socket_lt =>
    rw [h.connects, h.reconnects, h.created, h.socket]
    exact hs.socket_lt
  case sends_lt =>
    rw [h.connects, h.reconnects, h.created]
    intro op hop
    rcases h.sends op hop with hop | hop
    · exact hs.sends_lt op hop
    · exact hs.socket_lt op.socket hop

theorem begins_beginSend
    (s : Client)
    (bytes : List UInt8)
    (msgSeq : UInt32)
    (throws : Bool) :
    Begins s (s.beginSend bytes msgSeq throws).1 := by
  unfold beginSend
  split
  · rename_i k hsocket
    refine ⟨rfl, rfl, rfl, rfl, rfl, rfl, fun op hop => ?_⟩
    rcases List.mem_append.mp hop with hop | hop
    · exact .inl hop
    · rw [List.mem_singleton.mp hop]
      exact .inr hsocket
  · exact ⟨rfl, rfl, rfl, rfl, rfl, rfl, fun _ => .inl⟩

theorem begins_beginCurrent
    (s : Client)
    (throws : Bool) :
    Begins s (s.beginCurrent throws).1 := by
  unfold beginCurrent
  split
  · exact ⟨rfl, rfl, rfl, rfl, rfl, rfl, fun _ => .inl⟩
  · exact begins_beginSend s _ _ throws

theorem begins_sendPacket
    (s : Client)
    (packet : Packet)
    (throws : Bool) :
    Begins s (s.sendPacket packet throws).1 := by
  have hqueued : Begins s { s with sendQueue := s.sendQueue ++ [packet] } :=
    ⟨rfl, rfl, rfl, rfl, rfl, rfl, fun _ => .inl⟩
  unfold sendPacket
  dsimp only
  split_ifs
  · exact hqueued.trans (begins_beginCurrent _ throws)
  · exact hqueued

theorem keptByQueueing_begins
    (s : Client) :
    KeptByQueueing (Begins s) where
  number _ h := h.trans ⟨rfl, rfl, rfl, rfl, rfl, rfl, fun _ => .inl⟩
  send s₁ packet throws _ h := h.trans (begins_sendPacket s₁ packet throws)

theorem begins_sendRequest
    (s : Client)
    (msgId : UInt32)
    (reliable throws : Bool) :
    Begins s (s.sendRequest msgId reliable throws).1 :=
  (keptByQueueing_begins s).sendRequest ⟨rfl, rfl, rfl, rfl, rfl, rfl, fun _ => .inl⟩ msgId
    reliable throws

theorem begins_sendBody
    (s : Client)
    (msg : Msg)
    (reliable throws : Bool) :
    Begins s (s.sendBody msg reliable throws) :=
  (keptByQueueing_begins s).sendBody ⟨rfl, rfl, rfl, rfl, rfl, rfl, fun _ => .inl⟩ msg
    reliable throws

theorem begins_pass
    (s : Client)
    (packet : Packet) :
    Begins s (s.pass packet) := by
  unfold pass
  split_ifs <;> exact ⟨rfl, rfl, rfl, rfl, rfl, rfl, fun _ => .inl⟩

theorem begins_advance
    (s : Client)
    (written : Nat)
    (throws : Bool) :
    Begins s (s.advance written throws) := by
  unfold advance
  split
  · exact ⟨rfl, rfl, rfl, rfl, rfl, rfl, fun _ => .inl⟩
  rename_i packet _
  have hset : Begins s
      { s with sendQueue := s.sendQueue.set s.sendQueueIdx.toNat (packet.skip written) } :=
    ⟨rfl, rfl, rfl, rfl, rfl, rfl, fun _ => .inl⟩
  have hpass := begins_pass s (packet.skip written)
  dsimp only
  split_ifs
  · exact hset.trans (begins_beginSend _ _ _ throws)
  · exact hpass.trans (begins_beginCurrent _ throws)
  · exact hpass

theorem begins_callbackSendMsg
    {op : Nat} {written : Option Nat} {throws : Bool}
    (h : s.callbackSendMsg op written throws = some s') :
    Begins s s' := by
  have hdone : Begins s { s with sends := s.sends.eraseIdx op } :=
    ⟨rfl, rfl, rfl, rfl, rfl, rfl, fun _ hop => .inl (List.mem_of_mem_eraseIdx hop)⟩
  obtain ⟨_, _, ⟨_, rfl⟩ | ⟨_, _, rfl⟩ | ⟨n, _, _, rfl⟩⟩ := callbackSendMsg_cases h
  · exact hdone
  · exact hdone
  · exact hdone.trans (begins_advance _ _ throws)

theorem Sockets.close
    (hs : s.Sockets) :
    s.close.Sockets :=
  { hs with connected := fun h => by cases h }

/-- A new socket is created. -/
theorem Sockets.start
    (hs : s.Sockets)
    (connects reconnects : List Nat)
    (hnew : (connects ++ reconnects).Perm (s.created :: (s.connects ++ s.reconnects))) :
    Sockets { s with
      state := .onConnecting
      timer := true
      created := s.created + 1
      connects := connects
      reconnects := reconnects } := by
  have hmem : ∀ k, k ∈ connects ++ reconnects ↔ k = s.created ∨ k ∈ s.connects ++ s.reconnects :=
    fun k => hnew.mem_iff.trans List.mem_cons
  constructor
  case connected =>
    intro h
    cases h
  case nodup =>
    refine hnew.nodup_iff.mpr (List.nodup_cons.mpr ⟨?_, hs.nodup⟩)
    intro h
    exact Nat.lt_irrefl _ (hs.pending_lt _ h)
  case pending_lt =>
    intro k hk
    rcases (hmem k).mp hk with rfl | hk
    · exact Nat.lt_succ_self _
    · exact Nat.lt_succ_of_lt (hs.pending_lt k hk)
  case socket_lt =>
    intro k hk
    obtain ⟨hlt, hunused⟩ := hs.socket_lt k hk
    refine ⟨Nat.lt_succ_of_lt hlt, fun h => ?_⟩
    rcases (hmem k).mp h with rfl | h
    · exact Nat.lt_irrefl _ hlt
    · exact hunused h
  case sends_lt =>
    intro op hop
    obtain ⟨hlt, hunused⟩ := hs.sends_lt op hop
    refine ⟨Nat.lt_succ_of_lt hlt, fun h => ?_⟩
    rcases (hmem op.socket).mp h with heq | h
    · omega
    · exact hunused h

/-- A socket that was being connected becomes the current one, and nothing is outstanding on
it. -/
theorem Sockets.accept
    (hs : s.Sockets)
    {k : Nat} {connects reconnects : List Nat}
    (hperm : (s.connects ++ s.reconnects).Perm (k :: (connects ++ reconnects))) :
    Sockets { s with connects := connects, reconnects := reconnects, socket := some k } ∧
      outstanding
        { s with connects := connects, reconnects := reconnects, socket := some k } = [] := by
  have hnodup := List.nodup_cons.mp (hperm.nodup_iff.mp hs.nodup)
  have hmem : ∀ k' ∈ connects ++ reconnects, k' ∈ s.connects ++ s.reconnects :=
    fun k' hk' => hperm.mem_iff.mpr (List.mem_cons_of_mem k hk')
  have hk : k ∈ s.connects ++ s.reconnects := hperm.mem_iff.mpr List.mem_cons_self
  refine ⟨⟨fun h => ⟨(hs.connected h).1, rfl⟩, hnodup.2,
    fun k' hk' => hs.pending_lt k' (hmem k' hk'), ?_, ?_⟩, ?_⟩
  · rintro k' heq
    cases heq
    exact ⟨hs.pending_lt k hk, hnodup.1⟩
  · intro op hop
    obtain ⟨hlt, hunused⟩ := hs.sends_lt op hop
    exact ⟨hlt, fun h => hunused (hmem _ h)⟩
  · refine List.filter_eq_nil_iff.mpr fun op hop heq => ?_
    simp only [Option.some.injEq, decide_eq_true_eq] at heq
    exact (hs.sends_lt op hop).2 (heq ▸ hk)

/-- The two lists of a socket of Callback_Connect, and those of Callback_Reconnect. -/
theorem perm_erase_connects
    {k : Nat}
    (h : k ∈ s.connects) :
    (s.connects ++ s.reconnects).Perm (k :: (s.connects.erase k ++ s.reconnects)) :=
  (List.perm_cons_erase h).append_right s.reconnects

theorem perm_erase_reconnects
    {k : Nat}
    (h : k ∈ s.reconnects) :
    (s.connects ++ s.reconnects).Perm (k :: (s.connects ++ s.reconnects.erase k)) :=
  ((List.perm_cons_erase h).append_left s.connects).trans List.perm_middle

theorem Sockets.connect
    (hs : s.Sockets)
    (outcome : Connecting) :
    (s.connect outcome).Sockets := by
  have hreset : Sockets { s with
      state := .onConnecting
      socket := none
      endpoint := true
      timer := false
      msgSeq := 0
      sendQueue := []
      sendQueueIdx := 0
      handed := []
      processed := 0 } :=
    { hs with
      connected := fun h => by cases h
      socket_lt := fun _ h => by cases h }
  cases outcome with
  | started =>
      refine hreset.start (s.connects ++ [s.created]) s.reconnects ?_
      rw [List.append_assoc]
      exact List.perm_middle
  | refused =>
      exact hreset
  | unresolved =>
      exact { hreset with }

theorem Sockets.reconnect
    (hs : s.Sockets)
    (throws : Bool) :
    (s.reconnect throws).1.Sockets := by
  unfold Client.reconnect
  dsimp only
  split_ifs
  · refine hs.start s.connects (s.reconnects ++ [s.created]) ?_
    rw [← List.append_assoc]
    exact List.perm_append_singleton _ _
  · exact { hs with connected := fun h => by cases h }
  · exact hs

theorem keptByQueueing_sockets :
    KeptByQueueing Sockets where
  number _ hs := hs.of_begins ⟨rfl, rfl, rfl, rfl, rfl, rfl, fun _ => .inl⟩
  send s packet throws _ hs := hs.of_begins (begins_sendPacket s packet throws)

theorem Sockets.callbackConnect
    (hs : s.Sockets)
    {socket : Nat} {connected throws : Bool}
    (h : s.callbackConnect socket connected throws = some s') :
    s'.Sockets := by
  unfold Client.callbackConnect at h
  dsimp only at h
  split_ifs at h with hmem hok
  · have haccept := (hs.accept (perm_erase_connects hmem)).1
    have hconnected : Sockets { s with
        connects := s.connects.erase socket
        socket := some socket
        state := .connected } :=
      { haccept with connected := fun _ => ⟨hok.2, rfl⟩ }
    have hrequest := hconnected.of_begins (begins_sendRequest _ 1 false throws)
    split at h <;> rename_i s₁ heq <;> rw [heq] at hrequest <;> cases h
    · exact { hrequest with }
    · exact hrequest.close
  · cases h
    exact (hs.accept (perm_erase_connects hmem)).1.close

theorem Sockets.resend
    (hs : s.Sockets)
    (htimer : s.timer = true)
    (hsocket : s.socket.isSome)
    (request : List UInt8)
    (throws : Bool) :
    (s.resend request throws).Sockets := by
  have hconnected : Sockets { s with
      state := .connected
      sendQueue := []
      sendQueueIdx := 0
      msgSeq := s.msgSeq + 1 } :=
    { hs with connected := fun _ => ⟨htimer, hsocket⟩ }
  unfold Client.resend
  dsimp only
  split
  · exact hconnected
  rename_i packet _
  have hsend := hconnected.of_begins (begins_sendPacket _ packet throws)
  split <;> rename_i s₁ heq <;> rw [heq] at hsend
  · exact hsend.close
  · exact { hsend with }

theorem Sockets.callbackReconnect
    (hs : s.Sockets)
    {socket : Nat} {connected : Bool} {request : List UInt8} {throws : Bool}
    (h : s.callbackReconnect socket connected request throws = some s') :
    s'.Sockets := by
  unfold Client.callbackReconnect at h
  dsimp only at h
  split_ifs at h with hmem hok htimer
  · cases h
    exact (hs.accept (perm_erase_reconnects hmem)).1.resend htimer rfl request throws
  · cases h
    exact (hs.accept (perm_erase_reconnects hmem)).1
  · cases h
    exact (hs.accept (perm_erase_reconnects hmem)).1.close

theorem sockets_new :
    Sockets new where
  connected h := by
    cases h
  nodup := .nil
  pending_lt _ h := by
    cases h
  socket_lt _ h := by
    cases h
  sends_lt _ h := by
    cases h

/-- Every event keeps the sockets apart. -/
theorem Sockets.step
    (hs : s.Sockets)
    {e : PumpEvent}
    (h : s.step e = some s') :
    s'.Sockets := by
  cases e with
  | connect outcome =>
      cases h
      exact hs.connect outcome
  | connected socket connected throws =>
      exact hs.callbackConnect h
  | reconnected socket connected request throws =>
      exact hs.callbackReconnect h
  | sendMsg msg reliable connectThrows throws =>
      cases h
      exact keptByQueueing_sockets.sendMsg (hs.reconnect connectThrows) msg reliable throws
  | sent op written throws =>
      exact hs.of_begins (begins_callbackSendMsg h)
  | heartBeat throws =>
      simp only [Client.step] at h
      split_ifs at h
      cases h
      exact hs.of_begins (begins_sendRequest s 3 true throws)
  | close =>
      cases h
      exact hs.close
  | process msgSeq =>
      simp only [Client.step] at h
      split_ifs at h
      cases h
      exact { hs with }
  | answer =>
      cases h
      exact { hs with }
  | recvHeartBeatAns =>
      simp only [Client.step] at h
      split at h <;> cases h
      exact { hs with }

end Sockets

end Client
end Unity
end Gamnet
