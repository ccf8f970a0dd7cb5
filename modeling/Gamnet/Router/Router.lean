import Gamnet.Router.LinkManager
import Gamnet.Router.Routes
import Gamnet.Router.Waiting

/-!
# Messages through the routers

Router::SendMsg writes a message into a packet, and the bytes of that packet
become the buffer of a SendMsg_Ntf, which is written into another one. The
receive loop of the addressed router cuts the frame out of its reads,
Recv_SendMsg_Ntf puts the buffer into a packet of its own and hands that to
Router::Dispatcher.

The layers are followed in this order: what a caster puts on the links, what
the reads of one frame do to a router process, and the call of the handler.
-/

namespace Gamnet
namespace Router

open Tcp (headerSize Packet written)
open LittleEndian

section Sending

/-- The messages that a router session was given to send, the latest first. -/
def World.sentTo (w : World) (r : SessionId) : List Message :=
  w.sent.filterMap fun x => if x.1 = r then some x.2 else none

/-- Router::SendMsg, alone in its caster. A client session gives its number to the
header of the message. -/
def routerSendMsg (env : Env) (w : World) (session : Option (ClientId × Nat))
    (addr : Address) (msg : Tcp.Msg) : Except Crash World :=
  match createPacket env w with
  | (none, w) => .ok w
  | (some packet, w) =>
      let msgSeq :=
        match session with
        | none => 0
        | some (_, msgSeq) => msgSeq
      let packet := packet.write msgSeq msg
      if packet.ok then
        match run env w
          [.startSendMsg (session.map Prod.fst) addr packet.packet.unread,
            .finishSendMsg w.pending.length] with
        | .error e => .error e
        | .ok w => run env w (List.replicate w.casting.length .castNext)
      else .ok w

/-- A SendMsg call for an address reaches router session r once. -/
def Reaches (w : World) (addr : Address) (r : SessionId) : Prop :=
  (addr.castType = Address.uniCast ∧ w.tables.uni addr.key = some r) ∨
  (addr.castType = Address.multiCast ∧
    ∃ lst, w.tables.multi addr.serviceName = some lst ∧
      none ∉ lst ∧ lst.count (some r) = 1) ∨
  (addr.castType = Address.anyCast ∧
    ∃ first lst, w.tables.any addr.serviceName = some (first, lst) ∧
      lst[sizeOfInt first % lst.length]? = some (some r))

variable {w w' : World} {p : Pending} {r : SessionId}

theorem sendTo_sentTo
    (w : World) (s : SessionId) (m : Message) :
    (sendTo w s m).sentTo r =
      (if s = r ∧ (w.sessions r).attached then [m] else []) ++ w.sentTo r := by
  unfold sendTo
  by_cases hs : s = r
  · subst hs
    cases hattached : (w.sessions s).attached with
    | false =>
        simp
    | true =>
        simp [World.sentTo]
  · cases hattached : (w.sessions s).attached with
    | false =>
        simp [hs]
    | true =>
        simp [World.sentTo, hs]

theorem addSession_attached
    (w : World) (s : SessionId) (n : Nat) (c : ClientId) (call : Nat) :
    ((addSession w s n c call).sessions r).attached = (w.sessions r).attached := by
  unfold addSession
  split
  · rfl
  · rw [World.setSession_sessions]
    by_cases hs : r = s
    · subst hs
      rw [Function.update_self]
    · rw [Function.update_of_ne hs]

theorem addSession_sent
    (w : World) (s : SessionId) (n : Nat) (c : ClientId) (call : Nat) :
    (addSession w s n c call).sent = w.sent := by
  unfold addSession
  split
  · rfl
  · rfl

theorem sendTo_attached
    (w : World) (s : SessionId) (m : Message) :
    ((sendTo w s m).sessions r).attached = (w.sessions r).attached := by
  unfold sendTo
  split
  · rfl
  · rfl

theorem castTo_attached
    (w : World) (p : Pending) (s : SessionId) :
    ((castTo w p s).sessions r).attached = (w.sessions r).attached := by
  unfold castTo
  rw [sendTo_attached]
  cases p.client with
  | none =>
      rfl
  | some client =>
      exact addSession_attached w s p.msgSeq client p.call

/-- A caster gives the message to the session once. -/
theorem castTo_sentTo
    (hattached : (w.sessions r).attached = true)
    (p : Pending) (s : SessionId) :
    (castTo w p s).sentTo r =
      (if s = r then [.sendMsgNtf p.msgSeq p.buf] else []) ++ w.sentTo r := by
  unfold castTo
  rw [sendTo_sentTo]
  cases p.client with
  | none =>
      simp [hattached]
  | some client =>
      have hattached' := addSession_attached (r := r) w s p.msgSeq client p.call
      have hsent : ((addSession w s p.msgSeq client p.call).log
          (.address p.call s)).sentTo r = w.sentTo r := by
        unfold World.sentTo
        exact congrArg _ (addSession_sent w s p.msgSeq client p.call)
      rw [hattached] at hattached'
      simp only [hsent]
      have hlog : (((addSession w s p.msgSeq client p.call).log
          (.address p.call s)).sessions r).attached = true := hattached'
      simp [hlog]

theorem castTo_casting
    (w : World) (p : Pending) (s : SessionId) :
    (castTo w p s).casting = w.casting := by
  unfold castTo
  rw [(shrinks_sendTo _ s _).casting]
  split
  · rfl
  · simp only [addSession, World.log]
    split
    · rfl
    · rfl

/-- The copies of a call give the message to a session as often as it stands in the list. -/
theorem run_castNext_sentTo
    (env : Env)
    {lst : List Pointer}
    (hattached : (w.sessions r).attached = true)
    (hnull : none ∉ lst)
    (hcasting : w.casting = lst.map fun s => (p, s)) :
    ∃ w', run env w (List.replicate lst.length .castNext) = .ok w' ∧
      w'.sentTo r =
        List.replicate (lst.count (some r)) (.sendMsgNtf p.msgSeq p.buf) ++ w.sentTo r := by
  induction lst generalizing w with
  | nil =>
      exact ⟨w, rfl, rfl⟩
  | cons s rest ih =>
      rw [List.mem_cons, not_or] at hnull
      cases s with
      | none =>
          exact absurd rfl hnull.1
      | some s =>
          rw [List.map_cons] at hcasting
          obtain ⟨w₁, hw₁⟩ : ∃ w₁ : World,
              w₁ = { w with casting := rest.map fun s => (p, s) } := ⟨_, rfl⟩
          have hnext : castNext w = .ok (castTo w₁ p s) := by
            simp only [castNext, hcasting, hw₁]
          have hattached₁ : (w₁.sessions r).attached = true := by
            rw [hw₁]
            exact hattached
          have hsent₁ : w₁.sentTo r = w.sentTo r := by
            rw [hw₁]
            rfl
          obtain ⟨w', hrun, hsent⟩ := @ih (castTo w₁ p s)
            (by rw [castTo_attached]; exact hattached₁) hnull.2
            (by rw [castTo_casting, hw₁])
          refine ⟨w', ?_, ?_⟩
          · rw [List.length_cons, List.replicate_succ, run]
            simp only [step, hnext]
            exact hrun
          · rw [hsent, castTo_sentTo hattached₁, hsent₁]
            by_cases hs : s = r
            · subst hs
              rw [if_pos rfl, List.count_cons_self, List.replicate_succ', List.append_assoc]
            · rw [if_neg hs, List.count_cons_of_ne (by simpa using hs), List.nil_append]

/-- A call that enters its caster lists one copy for the addressed session. -/
theorem cast_reaches
    (hreaches : Reaches w p.addr r) :
    ∃ (w' : World) (lst : List Pointer), cast w p = .ok w' ∧
      w'.casting = w.casting ++ lst.map (fun s => (p, s)) ∧
      none ∉ lst ∧ lst.count (some r) = 1 ∧
      w'.sessions = w.sessions ∧ w'.sent = w.sent := by
  rcases hreaches with ⟨htype, hroute⟩ | ⟨htype, lst, hroute, hnull, hcount⟩ |
    ⟨htype, first, lst, hroute, hnext⟩
  · refine ⟨w.addCopies p [some r], [some r], ?_, rfl, by simp, by simp, rfl, rfl⟩
    simp [cast, htype, Address.uniCast, Address.maxCast, sendUni, hroute]
  · refine ⟨w.addCopies p lst, lst, ?_, rfl, hnull, hcount, rfl, rfl⟩
    simp [cast, htype, Address.uniCast, Address.multiCast, Address.maxCast, sendMulti, hroute]
  · obtain ⟨t, hcast⟩ : ∃ t, cast w p = .ok ({ w with tables := t }.addCopies p [some r]) := by
      refine ⟨{ w.tables with
        any := Function.update w.tables.any p.addr.serviceName
          (some ((first + 1) % 2 ^ 32, lst)) }, ?_⟩
      simp [cast, htype, Address.uniCast, Address.multiCast, Address.anyCast, Address.maxCast,
        sendAny, hroute, hnext]
    exact ⟨_, [some r], hcast, rfl, by simp, by simp, rfl, rfl⟩

/-- The number in the envelope of a SendMsg call. -/
def envelopeSeq (w : World) (session : Option (ClientId × Nat)) (addr : Address) : Nat :=
  match session with
  | none => addr.msgSeq % 2 ^ 32
  | some _ => w.msgSeq

/-- The number in the header of the message. -/
def headerSeq (session : Option (ClientId × Nat)) : Nat :=
  match session with
  | none => 0
  | some (_, msgSeq) => msgSeq

/-- A message that Store accepts, as Write sees it. -/
structure Storable (msg : Tcp.Msg) : Prop where
  stored : msg.stored = true
  size : Packet.totalLength msg.size = Packet.totalLength msg.body.length
  fits : headerSize + msg.body.length + 18 < Buffer.maxSize

/-- The packet that Router::SendMsg writes for a message. -/
theorem write_storable
    {msg : Tcp.Msg}
    (hmsg : Storable msg)
    (packet : Packet) (msgSeq : Nat) :
    (packet.write msgSeq msg).ok = true ∧
      (packet.write msgSeq msg).packet.unread = written msgSeq msg.msgId msg.body := by
  have hwrite := @Tcp.writeBody_of_lt packet msgSeq msg.msgId msg.size msg.body
    (Nat.lt_of_le_of_lt (Nat.le_add_right _ _) hmsg.fits) hmsg.size true
  unfold Packet.write
  rw [hmsg.stored]
  exact ⟨hwrite.1, (hwrite.2 rfl).2⟩

/-- What the end of a SendMsg call gives to the addressed session, with all its copies. -/
theorem finishSendMsg_reaches
    (env : Env)
    (hpool : (env.pool w.created).isSome)
    (hidle : w.casting = [])
    (hreaches : Reaches w p.addr r)
    (hattached : (w.sessions r).attached = true)
    (hfits : headerSize + p.buf.length + 8 < Buffer.maxSize) :
    ∃ w₁ w', finishSendMsg env w p = .ok w₁ ∧
      run env w₁ (List.replicate w₁.casting.length .castNext) = .ok w' ∧
      w'.sentTo r = .sendMsgNtf p.msgSeq p.buf :: w.sentTo r := by
  obtain ⟨data, hdata⟩ := Option.isSome_iff_exists.mp hpool
  have hwritable : (Message.sendMsgNtf p.msgSeq p.buf).writable = true := by
    unfold headerSize Buffer.maxSize at hfits
    apply decide_eq_true
    simp only [Message.size, headerSize, Buffer.maxSize]
    omega
  obtain ⟨w₁, lst, hcast, hcasting, hnull, hcount, hsessions, hsent⟩ :=
    cast_reaches (w := { w with created := w.created + 1 }) hreaches
  rw [show ({ w with created := w.created + 1 } : World).casting = [] from hidle,
    List.nil_append] at hcasting
  have hattached₁ : (w₁.sessions r).attached = true := by
    rw [hsessions]
    exact hattached
  obtain ⟨w', hrun, hsent'⟩ := run_castNext_sentTo env hattached₁ hnull hcasting
  refine ⟨w₁, w', ?_, ?_, ?_⟩
  · simp only [finishSendMsg, createPacket, hdata, hwritable, if_true]
    exact hcast
  · rw [hcasting, List.length_map]
    exact hrun
  · rw [hsent', hcount, List.replicate_one, List.singleton_append]
    unfold World.sentTo
    rw [hsent]

/-- Router::SendMsg gives the addressed session one SendMsg_Ntf, with the packet
of the message in it. -/
theorem routerSendMsg_reaches
    (env : Env)
    {session : Option (ClientId × Nat)} {addr : Address} {msg : Tcp.Msg}
    (hpool : ∀ n, (env.pool n).isSome)
    (hidle : w.casting = [])
    (hreaches : Reaches w addr r)
    (hattached : (w.sessions r).attached = true)
    (hmsg : Storable msg) :
    ∃ w', routerSendMsg env w session addr msg = .ok w' ∧
      w'.sentTo r =
        .sendMsgNtf (envelopeSeq w session addr)
          (written (headerSeq session) msg.msgId msg.body) :: w.sentTo r := by
  obtain ⟨data, hdata⟩ := Option.isSome_iff_exists.mp (hpool w.created)
  obtain ⟨hok, hunread⟩ := write_storable hmsg (Packet.ofStorage data) (headerSeq session)
  have hfits : headerSize + (written (headerSeq session) msg.msgId msg.body).length + 8 <
      Buffer.maxSize := by
    have h := hmsg.fits
    rw [Tcp.written_length]
    unfold headerSize at h ⊢
    omega
  cases session with
  | none =>
      simp only [headerSeq] at hok hunread hfits
      obtain ⟨w₁, w', hfinish, hrun, hsent⟩ := finishSendMsg_reaches
        (w := { w with created := w.created + 1 })
        (p := { client := none, msgSeq := addr.msgSeq % 2 ^ 32, call := 0, addr := addr,
                buf := written 0 msg.msgId msg.body })
        env (hpool _) hidle hreaches hattached hfits
      refine ⟨w', ?_, hsent⟩
      simp only [routerSendMsg, createPacket, hdata, hok, if_true, hunread, Option.map_none,
        run, step, startSendMsg, List.getElem?_concat_length, List.eraseIdx_append_of_length_le
          (Nat.le_refl _), Nat.sub_self, List.eraseIdx_cons_zero, List.append_nil, hfinish, hrun]
  | some client =>
      obtain ⟨c, msgSeq⟩ := client
      simp only [headerSeq] at hok hunread hfits
      obtain ⟨w₁, w', hfinish, hrun, hsent⟩ := finishSendMsg_reaches
        (w :=
          { w with
            created := w.created + 1
            msgSeq := (w.msgSeq + 1) % 2 ^ 32
            calls := w.calls ++ [{ client := c, msgSeq := w.msgSeq }] })
        (p := { client := some c, msgSeq := w.msgSeq, call := w.calls.length, addr := addr,
                buf := written msgSeq msg.msgId msg.body })
        env (hpool _) hidle hreaches hattached hfits
      refine ⟨w', ?_, hsent⟩
      simp only [routerSendMsg, createPacket, hdata, hok, if_true, hunread, Option.map_some,
        run, step, startSendMsg, List.getElem?_concat_length, List.eraseIdx_append_of_length_le
          (Nat.le_refl _), Nat.sub_self, List.eraseIdx_cons_zero, List.append_nil, hfinish, hrun]

end Sending

section Reading

open Tcp (Frame Receiving deliver onRecvMsg onRecvMsgs recvLoop recvRound)

variable {A : Type} (env : Tcp.Env A)
variable {w : Tcp.World A} {l : Tcp.LinkId} {s : Tcp.SessionId}
variable {u bytes : List UInt8} {f : Frame} {a : A}

/-- The application state and the links of the sessions are the same. -/
structure SameApp (w w' : Tcp.World A) : Prop where
  app : w'.app = w.app
  link : ∀ t, (w'.sessions t).link = (w.sessions t).link

/-- A router appends what it reads to the packet of the session. -/
theorem onRecvMsg_append
    (hkind : env.kind = .router)
    (h : Receiving w l s u)
    (hfits : u.length + bytes.length ≤ Buffer.maxSize) :
    ∃ w₁, onRecvMsg env l w bytes = recvLoop env l s w₁ ∧
      Receiving w₁ l s (u ++ bytes) ∧
      SameApp w w₁ := by
  obtain ⟨packet, happend, hholds⟩ := h.toHolds.append hfits
  have htouch : Tcp.touch env w s = w := by
    simp only [Tcp.touch, hkind]
  rw [← htouch] at happend
  have hread := Tcp.onRecvMsg_of_append env h.session happend
  rw [htouch] at hread
  exact ⟨w.setPacket (w.sessions s).recvPacket packet, hread, ⟨hholds, h.session, h.link⟩,
    ⟨rfl, fun _ => rfl⟩⟩

/-- A read that does not complete a frame is kept. -/
theorem onRecvMsg_of_waiting
    (hkind : env.kind = .router)
    (h : Receiving w l s u)
    (hfits : u.length + bytes.length ≤ Buffer.maxSize)
    (hwait : Tcp.frameFormat.Waiting (u ++ bytes)) :
    ∃ w', onRecvMsg env l w bytes = .ok w' ∧
      Receiving w' l s (u ++ bytes) ∧
      SameApp w w' := by
  obtain ⟨w₁, hread, h₁, hsame⟩ := onRecvMsg_append env hkind h hfits
  have hround := Tcp.recvRound_of_waiting env l h₁.toHolds hwait
  refine ⟨w₁, ?_, h₁, hsame⟩
  rw [hread]
  simp only [recvLoop, WhileLoop.run_done hround]

/-- A read that completes a frame delivers it. -/
theorem onRecvMsg_of_frame
    (hkind : env.kind = .router)
    (h : Receiving w l s u)
    (hcut : u ++ bytes = f.bytes)
    (hdeliver : ∀ w₁, Receiving w₁ l s f.bytes → SameApp w w₁ →
      ∃ w₂, deliver env l w₁ s = .ok w₂ ∧ Receiving w₂ l s f.bytes ∧ w₂.app = a) :
    ∃ w', onRecvMsg env l w bytes = .ok w' ∧
      Receiving w' l s [] ∧
      w'.app = a := by
  have hfits : u.length + bytes.length ≤ Buffer.maxSize := by
    rw [← List.length_append, hcut]
    exact Nat.le_of_lt f.length_lt
  obtain ⟨w₁, hread, h₁, hsame⟩ := onRecvMsg_append env hkind h hfits
  rw [hcut] at h₁
  obtain ⟨w₂, hdelivered, h₂, happ⟩ := hdeliver w₁ h₁ hsame
  have hfront : Tcp.Holds w₁ s (f.bytes ++ []) := by
    rw [List.append_nil]
    exact h₁.toHolds
  obtain ⟨w₃, hloop, hholds, hadvanced, _⟩ := Tcp.recvLoop_single env hfront hdelivered
  exact ⟨w₃, hread.trans hloop, h₂.advanced hadvanced hholds, hadvanced.app.trans happ⟩

/-- Reads of nothing. -/
theorem onRecvMsgs_of_empty
    {reads : List (List UInt8)}
    (hkind : env.kind = .router)
    (h : Receiving w l s [])
    (hempty : reads.flatten = []) :
    ∃ w', onRecvMsgs env l w reads = .ok w' ∧
      Receiving w' l s [] ∧
      w'.app = w.app := by
  induction reads generalizing w with
  | nil =>
      exact ⟨w, rfl, h, rfl⟩
  | cons bytes reads ih =>
      rw [List.flatten_cons, List.append_eq_nil_iff] at hempty
      obtain ⟨rfl, hlater⟩ := hempty
      obtain ⟨w₁, hread, h₁, hsame⟩ := @onRecvMsg_of_waiting A env w l s [] [] hkind h
        (Nat.zero_le _) (.inl (by decide))
      obtain ⟨w', hreads, h', happ⟩ := ih h₁ hlater
      refine ⟨w', ?_, h', happ.trans hsame.app⟩
      rw [Tcp.onRecvMsgs_cons, hread, Tcp.Outcome.bind_ok, hreads]

/-- Reads that bring the rest of one frame deliver it once, wherever they are
cut. -/
theorem onRecvMsgs_of_frame
    {reads : List (List UInt8)}
    (hkind : env.kind = .router)
    (h : Receiving w l s u)
    (hcut : u ++ reads.flatten = f.bytes)
    (hopen : u.length < f.length)
    (hdeliver : ∀ w₁, Receiving w₁ l s f.bytes → SameApp w w₁ →
      ∃ w₂, deliver env l w₁ s = .ok w₂ ∧ Receiving w₂ l s f.bytes ∧ w₂.app = a) :
    ∃ w', onRecvMsgs env l w reads = .ok w' ∧
      Receiving w' l s [] ∧
      w'.app = a := by
  induction reads generalizing w u with
  | nil =>
      rw [List.flatten_nil, List.append_nil] at hcut
      rw [hcut] at hopen
      exact absurd hopen (Nat.lt_irrefl _)
  | cons bytes reads ih =>
      rw [List.flatten_cons, ← List.append_assoc] at hcut
      have hfront : u ++ bytes <+: f.bytes := ⟨reads.flatten, hcut⟩
      by_cases hpart : (u ++ bytes).length < f.length
      · have hfits : u.length + bytes.length ≤ Buffer.maxSize := by
          rw [← List.length_append]
          exact Nat.le_of_lt (Nat.lt_trans hpart f.length_lt)
        have hproper : u ++ bytes ≠ f.bytes := by
          intro heq
          rw [heq] at hpart
          exact absurd hpart (Nat.lt_irrefl _)
        have hwait := f.isFrame.waiting_take hfront hproper (u ++ bytes).length
        rw [List.take_length] at hwait
        obtain ⟨w₁, hread, h₁, hsame⟩ := onRecvMsg_of_waiting env hkind h hfits hwait
        obtain ⟨w', hreads, h', happ⟩ := ih h₁ hcut hpart (fun w₂ h₂ hsame₂ =>
          hdeliver w₂ h₂ ⟨hsame₂.app.trans hsame.app,
            fun t => (hsame₂.link t).trans (hsame.link t)⟩)
        refine ⟨w', ?_, h', happ⟩
        rw [Tcp.onRecvMsgs_cons, hread, Tcp.Outcome.bind_ok, hreads]
      · have hwhole : u ++ bytes = f.bytes :=
          hfront.eq_of_length_le (Nat.le_of_not_lt hpart)
        have hlater : reads.flatten = [] := by
          rw [hwhole] at hcut
          exact List.append_right_eq_self.mp hcut
        obtain ⟨w₁, hread, h₁, happ⟩ := onRecvMsg_of_frame env hkind h hwhole hdeliver
        obtain ⟨w', hreads, h', happ'⟩ := onRecvMsgs_of_empty env hkind h₁ hlater
        refine ⟨w', ?_, h', happ'.trans happ⟩
        rw [Tcp.onRecvMsgs_cons, hread, Tcp.Outcome.bind_ok, hreads]

end Reading

section Encoding

/-- A message of MsgRouter.idl, as Write sees it. -/
def Message.toMsg : Message → Option Tcp.Msg
  | .setAddressReq localAddress =>
      Tcp.Msg.ofValue noOrder msgRouter "MsgRouter_SetAddress_Req" setAddressReq_declared
        msgIdSetAddressReq (.record none [localAddress.value])
  | .setAddressAns errorCode remoteAddress =>
      Tcp.Msg.ofValue noOrder msgRouter "MsgRouter_SetAddress_Ans" setAddressAns_declared
        msgIdSetAddressAns (.record none [.word errorCode, remoteAddress.value])
  | .setAddressNtf =>
      Tcp.Msg.ofValue noOrder msgRouter "MsgRouter_SetAddress_Ntf" setAddressNtf_declared
        msgIdSetAddressNtf (.record none [])
  | .sendMsgNtf msgSeq buffer =>
      Tcp.Msg.ofValue noOrder msgRouter "MsgRouter_SendMsg_Ntf" sendMsgNtf_declared
        msgIdSendMsgNtf (ntfValue msgSeq buffer)

/-- The bytes of a message that Write puts into a packet of the pool. -/
def Message.bytes (m : Message) (packet : Packet) : Option (List UInt8) :=
  m.toMsg.map fun msg => (packet.write 0 msg).packet.unread

variable {msgSeq : Nat} {buffer : List UInt8}

/-- A SendMsg_Ntf, as Write sees it. -/
theorem toMsg_sendMsgNtf
    (msgSeq : Nat) (buffer : List UInt8) :
    ∃ msg, (Message.sendMsgNtf msgSeq buffer).toMsg = some msg ∧
      msg.msgId = msgIdSendMsgNtf ∧
      msg.body = ntfBody msgSeq buffer ∧
      msg.stored = true ∧
      Packet.totalLength msg.size = Packet.totalLength msg.body.length := by
  obtain ⟨msg, hmsg, hbody⟩ := Tcp.exists_ofValue noOrder msgIdSendMsgNtf
    (ntf_store msgSeq buffer)
  obtain ⟨hstored, hsize⟩ := Tcp.totalLength_ofValue hmsg
  exact ⟨msg, hmsg, Tcp.msgId_ofValue hmsg, hbody, hstored, hsize⟩

/-- The bytes of a SendMsg_Ntf. -/
theorem bytes_sendMsgNtf
    (hlen : headerSize + (ntfBody msgSeq buffer).length < Buffer.maxSize)
    (packet : Packet) :
    (Message.sendMsgNtf msgSeq buffer).bytes packet =
      some (written 0 msgIdSendMsgNtf (ntfBody msgSeq buffer)) := by
  obtain ⟨msg, hmsg, hid, hbody, hstored, hsize⟩ := toMsg_sendMsgNtf msgSeq buffer
  rw [← hbody] at hlen
  have hwrite := (@Tcp.writeBody_of_lt packet 0 msg.msgId msg.size msg.body hlen hsize
    true).2 rfl
  unfold Message.bytes Packet.write
  rw [hmsg, Option.map_some, hstored, hwrite.2, hid, hbody]

end Encoding

section Serving

open Tcp (Frame Receiving deliver)

variable {host : Host} {x : Server} {addr : Address} {packet : Packet} {msgId : Nat}

/-- The factory of the handler for a message id has a handler for a message of
the sender: a find factory only if a client session waits for it. -/
def Serves (host : Host) (x : Server) (addr : Address) (msgId : Nat) : Prop :=
  match host.factory msgId with
  | none => False
  | some .static => True
  | some .create => host.spare x.asked = true
  | some .find =>
      ∃ r entry, askedSession x.router addr = some r ∧
        (x.router.sessions r).waiting addr.msgSeq = some entry ∧
        (x.clients entry.client).attached = true ∧
        (x.clients entry.client).handlers msgId = true

/-- The handler depends on the routes, the waiting tables and the client
sessions. -/
theorem serves_congr
    {x' : Server}
    (htables : x'.router.tables = x.router.tables)
    (hwaiting : ∀ r, (x'.router.sessions r).waiting = (x.router.sessions r).waiting)
    (hclients : x'.clients = x.clients)
    (hasked : x'.asked = x.asked) :
    Serves host x' addr msgId ↔ Serves host x addr msgId := by
  simp only [Serves, askedSession, htables, hwaiting, hclients, hasked]

/-- There is no packet behind the last one. -/
theorem findSession_length
    (x : Server) :
    x.findSession x.asking.length = x := by
  simp only [Server.findSession, List.getElem?_length]

/-- A message for which there is a handler is given to it once, behind the
search for its client session if there is one. -/
theorem calls_of_serves
    (hserves : Serves host x addr packet.getID) :
    ((callHandler host x addr packet).findSession x.asking.length).calls =
      x.calls ++ [(addr, packet)] := by
  unfold Serves at hserves
  unfold callHandler
  cases hfactory : host.factory packet.getID with
  | none =>
      rw [hfactory] at hserves
      exact hserves.elim
  | some factory =>
      rw [hfactory] at hserves
      cases factory with
      | static =>
          exact congrArg Server.calls (findSession_length _)
      | create =>
          simp only [if_pos hserves]
          exact congrArg Server.calls (findSession_length _)
      | find =>
          obtain ⟨r, entry, hasked, hwaiting, hattached, hhandler⟩ := hserves
          simp only [hasked, Server.findSession, List.getElem?_concat_length, hwaiting,
            hattached, hhandler, if_true]

/-- A message for which there is no handler is given to nobody. -/
theorem calls_of_not_serves
    (hserves : ¬ Serves host x addr packet.getID) :
    ((callHandler host x addr packet).findSession x.asking.length).calls = x.calls := by
  unfold Serves at hserves
  unfold callHandler
  cases hfactory : host.factory packet.getID with
  | none =>
      exact congrArg Server.calls (findSession_length _)
  | some factory =>
      rw [hfactory] at hserves
      cases factory with
      | static =>
          exact absurd trivial hserves
      | create =>
          simp only [if_neg hserves]
          have hend := findSession_length { x with asked := x.asked + 1 }
          exact (congrArg Server.calls hend).trans rfl
      | find =>
          cases hasked : askedSession x.router addr with
          | none =>
              exact congrArg Server.calls (findSession_length _)
          | some r =>
              simp only [Server.findSession, List.getElem?_concat_length]
              cases hwaiting : (x.router.sessions r).waiting addr.msgSeq with
              | none =>
                  rfl
              | some entry =>
                  simp only
                  split
                  · rename_i hattached
                    split
                    · rename_i hhandler
                      exact absurd ⟨r, entry, hasked, hwaiting, hattached, hhandler⟩ hserves
                    · rfl
                  · rfl

/-- An envelope of a known router is opened, and its content is handed to the
handler of the message. -/
theorem serveSendMsgNtf_of_known
    {s r : SessionId} {outer : Packet} {msgSeq : Nat} {buffer : List UInt8}
    (hntf : readNtf host outer = some (msgSeq, buffer))
    (hseq : msgSeq < 2 ^ 32)
    (hknown : x.router.tables.uni (x.router.sessions s).address.key = some r)
    (hpool : (host.pool x.router.created).isSome)
    (hfits : buffer.length ≤ Buffer.maxSize) :
    ∃ inner router,
      serveSendMsgNtf host x s outer =
        callHandler host { x with router := router }
          { (x.router.sessions s).address with msgSeq := msgSeq } inner ∧
      inner.unread = buffer ∧ inner.readCursor = 0 ∧
      router.tables = x.router.tables ∧ router.sessions = x.router.sessions := by
  obtain ⟨inner, hhanded⟩ := @handed_of_registered host x.router s msgSeq buffer r hknown
    hpool hfits
  obtain ⟨_, _, hfields, _, hunread, hread⟩ := handed_eq hhanded
  cases hfields
  rw [Nat.mod_eq_of_lt hseq] at hhanded
  have hdispatched := recvSendMsgNtf_of_handed hhanded
  obtain ⟨finding, hfinding⟩ := dispatch_eq host.toEnv (createPacket host.toEnv x.router).2
    { (x.router.sessions s).address with msgSeq := msgSeq } inner
  refine ⟨inner, dispatch host.toEnv (createPacket host.toEnv x.router).2
    { (x.router.sessions s).address with msgSeq := msgSeq } inner, ?_, hunread, hread, ?_, ?_⟩
  · simp only [serveSendMsgNtf, hntf, hhanded, hdispatched, Server.after]
  · rw [hfinding, createPacket_world]
  · rw [hfinding, createPacket_world]

/-- A packet that holds a SendMsg_Ntf is handed to Recv_SendMsg_Ntf. -/
theorem deliver_sendMsgNtf
    {w : Tcp.World Server} {l : Tcp.LinkId} {s : Tcp.SessionId}
    {msgSeq : Nat} {buffer : List UInt8}
    (hlen : headerSize + (ntfBody msgSeq buffer).length < Buffer.maxSize)
    (h : Receiving w l s (written 0 msgIdSendMsgNtf (ntfBody msgSeq buffer))) :
    ∃ w' outer, deliver host.manager l w s = .ok w' ∧
      Receiving w' l s (written 0 msgIdSendMsgNtf (ntfBody msgSeq buffer)) ∧
      outer.readCursor = 0 ∧
      outer.unread = written 0 msgIdSendMsgNtf (ntfBody msgSeq buffer) ∧
      w'.app = serveSendMsgNtf host (attachedServer w) s outer := by
  have hid : (w.recvPacket s).getID = msgIdSendMsgNtf := by
    have hfront : (w.recvPacket s).unread =
        (Frame.write 0 msgIdSendMsgNtf (ntfBody msgSeq buffer) hlen).bytes ++ [] := by
      rw [List.append_nil]
      exact h.unread
    rw [Tcp.getID_of_front h.readCursor hfront, Frame.write_id hlen (by decide)]
  have hpasses : Tcp.passes host.manager w s (w.recvPacket s) = true := by
    rfl
  have hfind : Tcp.findHandler host.manager
      ((w.log (.examine s (w.recvPacket s))).log (.dispatch s (w.recvPacket s))) s
      (w.recvPacket s).getID =
        some (.user (staticHandler (serveSendMsgNtf host)), w.app) := by
    rw [hid]
    rfl
  refine ⟨{ (w.log (.examine s (w.recvPacket s))).log (.dispatch s (w.recvPacket s)) with
      app := serveSendMsgNtf host (attachedServer w) s (w.recvPacket s) }, w.recvPacket s,
    ?_, ?_, h.readCursor, h.unread, rfl⟩
  · rw [Tcp.deliver_of_passes host.manager hpasses]
    simp only [Tcp.dispatch, hfind]
    rfl
  · have hlogs := (h.log (.examine s (w.recvPacket s))).log (.dispatch s (w.recvPacket s))
    exact ⟨⟨hlogs.created, hlogs.unread, hlogs.readCursor⟩, hlogs.session, hlogs.link⟩

end Serving

section Encapsulation

open Tcp (Frame Receiving onRecvMsgs)

variable {host : Host} {w : Tcp.World Server} {l : Tcp.LinkId} {s : Tcp.SessionId}

/-- The reads of one SendMsg_Ntf on a link to a known router: the handler of
the inner message is called once if there is one, and not at all otherwise. -/
theorem onRecvMsgs_sendMsgNtf
    {r : SessionId} {msgSeq : Nat} {buffer : List UInt8} {reads : List (List UInt8)}
    (hpool : ∀ n, (host.pool n).isSome)
    (h : Receiving w l s [])
    (hknown : w.app.router.tables.uni (w.app.router.sessions s).address.key = some r)
    (hseq : msgSeq < 2 ^ 32)
    (hlen : headerSize + (ntfBody msgSeq buffer).length < Buffer.maxSize)
    (hcut : reads.flatten = written 0 msgIdSendMsgNtf (ntfBody msgSeq buffer)) :
    ∃ w' inner, onRecvMsgs host.manager l w reads = .ok w' ∧
      inner.unread = buffer ∧ inner.readCursor = 0 ∧
      (Serves host w.app { (w.app.router.sessions s).address with msgSeq := msgSeq }
          inner.getID →
        (w'.app.findSession w.app.asking.length).calls = w.app.calls ++
          [({ (w.app.router.sessions s).address with msgSeq := msgSeq }, inner)]) ∧
      (¬ Serves host w.app { (w.app.router.sessions s).address with msgSeq := msgSeq }
          inner.getID →
        (w'.app.findSession w.app.asking.length).calls = w.app.calls) := by
  have hbuffer : buffer.length ≤ Buffer.maxSize := by
    rw [ntfBody_length] at hlen
    omega
  have hntf : ∀ outer : Packet, outer.readCursor = 0 →
      outer.unread = written 0 msgIdSendMsgNtf (ntfBody msgSeq buffer) →
        readNtf host outer = some (msgSeq, buffer) := by
    intro outer hread hunread
    exact readNtf_of_written hread hunread hseq hlen
  -- Every packet that is read as the envelope serves as the one that arrives.
  obtain ⟨envelope, henvelope⟩ : ∃ envelope, readNtf host envelope = some (msgSeq, buffer) :=
    ⟨ntfPacket msgSeq buffer, readNtf_ntfPacket hseq hlen⟩
  obtain ⟨inner, router, hserve, hunread, hread, htables, hsessions⟩ :=
    @serveSendMsgNtf_of_known host (attachedServer w) s r envelope msgSeq buffer
      henvelope hseq hknown (hpool _) hbuffer
  obtain ⟨w', hreads, _, happ⟩ := onRecvMsgs_of_frame host.manager
    (f := Frame.write 0 msgIdSendMsgNtf (ntfBody msgSeq buffer) hlen)
    (a := serveSendMsgNtf host (attachedServer w) s envelope)
    rfl h (by rw [List.nil_append]; exact hcut) (Frame.length_pos _) (by
      intro w₁ h₁ hsame
      obtain ⟨w₂, outer, hdeliver, h₂, hcursor, houter, happ⟩ := deliver_sendMsgNtf hlen h₁
      refine ⟨w₂, hdeliver, h₂, ?_⟩
      have hserver : attachedServer w₁ = attachedServer w := by
        unfold attachedServer
        simp only [hsame.app, hsame.link]
      rw [happ, hserver]
      simp only [serveSendMsgNtf, hntf outer hcursor houter, henvelope])
  have hiff := @serves_congr host w.app
    { (w.app.router.sessions s).address with msgSeq := msgSeq } inner.getID
    { attachedServer w with router := router } htables
    (fun t => by rw [hsessions]; rfl) rfl rfl
  refine ⟨w', inner, hreads, hunread, hread, ?_, ?_⟩
  · intro hserves
    rw [happ, hserve]
    exact calls_of_serves (hiff.mpr hserves)
  · intro hserves
    rw [happ, hserve]
    exact calls_of_not_serves (fun h => hserves (hiff.mp h))

/-- The number in an envelope has 32 bits. -/
theorem envelopeSeq_lt
    {env : Env} {localAddress : Address} {steps : List Step} {w : World}
    (hrun : run env (World.initial localAddress) steps = .ok w)
    (session : Option (ClientId × Nat)) (addr : Address) :
    envelopeSeq w session addr < 2 ^ 32 := by
  cases session with
  | none =>
      exact Nat.mod_lt _ (by decide)
  | some client =>
      have hstart : 1 < 2 ^ 32 := by
        decide
      exact run_msgSeq_lt env hstart hrun

/-- A value of an IDL type is a message that Router::SendMsg can write. -/
theorem storable_ofValue
    {order : {declared : List String} → Idlc.VarType declared → Idlc.Compare}
    {declared : List String} {env : Idlc.Environment declared}
    {name : String} {known : name ∈ declared} {msgId : Nat} {v : Idlc.Value} {msg : Tcp.Msg}
    (hmsg : Tcp.Msg.ofValue order env name known msgId v = some msg)
    (hfits : headerSize + msg.body.length + 18 < Buffer.maxSize) :
    Storable msg := by
  obtain ⟨hstored, hsize⟩ := Tcp.totalLength_ofValue hmsg
  exact ⟨hstored, hsize, hfits⟩

/-- Router encapsulation is transparent, for a value of an IDL type that is sent
from any reachable state without another call in its caster, and for any segmentation: the
handler is called once, with a packet that is read as the value and with the number of the
envelope, if Store and Load hide no field, the sender is known and the factory has a handler. -/
theorem routerSendMsg_transparent
    {order : {declared : List String} → Idlc.VarType declared → Idlc.Compare}
    {declared : List String} {file : Idlc.IdlFile declared}
    {name : String} {known : name ∈ declared} {msgId : Nat} {v : Idlc.Value} {msg : Tcp.Msg}
    {sender receiver : Host} {localAddress addr : Address} {steps : List Step}
    {w : World} {x : Tcp.World Server} {session : Option (ClientId × Nat)}
    {r r' : SessionId} {l : Tcp.LinkId} {s : Tcp.SessionId}
    (hstore : file.Forall (Idlc.NamedDecl.HasFields Idlc.StoreClear))
    (hload : file.Forall (Idlc.NamedDecl.HasFields Idlc.LoadClear))
    (hmsg : Tcp.Msg.ofFile order file name known msgId v = some msg)
    (htyped : (file.layout.contents order name known).typed v)
    (hid : msgId < 2 ^ 32)
    (hfits : headerSize + msg.body.length + 18 < Buffer.maxSize)
    (hsender : ∀ n, (sender.pool n).isSome)
    (hrun : run sender.toEnv (World.initial localAddress) steps = .ok w)
    (hidle : w.casting = [])
    (hreaches : Reaches w addr r)
    (hattached : (w.sessions r).attached = true)
    (hreceiver : ∀ n, (receiver.pool n).isSome)
    (hreceiving : Receiving x l s [])
    (hknown : x.app.router.tables.uni (x.app.router.sessions s).address.key = some r')
    (hserves : Serves receiver x.app
      { (x.app.router.sessions s).address with msgSeq := envelopeSeq w session addr } msgId) :
    ∃ w' buffer, routerSendMsg sender.toEnv w session addr msg = .ok w' ∧
      w'.sentTo r = .sendMsgNtf (envelopeSeq w session addr) buffer :: w.sentTo r ∧
      ∀ packet reads,
        (Message.sendMsgNtf (envelopeSeq w session addr) buffer).bytes packet =
            some reads.flatten →
          ∃ x' inner c, onRecvMsgs receiver.manager l x reads = .ok x' ∧
            (x'.app.findSession x.app.asking.length).calls = x.app.calls ++
              [({ (x.app.router.sessions s).address with
                  msgSeq := envelopeSeq w session addr }, inner)] ∧
            inner.getID = msgId ∧
            inner.read receiver.beyond (file.serializer order name known).load =
              .returns v c := by
  rw [Tcp.ofFile_eq order hstore] at hmsg
  rw [Idlc.load_layout order hload]
  obtain ⟨w', hsend, hsent⟩ := @routerSendMsg_reaches w r sender.toEnv session addr msg
    hsender hidle hreaches hattached (storable_ofValue hmsg hfits)
  have hmsgId := Tcp.msgId_ofValue hmsg
  rw [hmsgId] at hsent
  have hbody : headerSize + msg.body.length < Buffer.maxSize :=
    Nat.lt_of_le_of_lt (Nat.le_add_right _ _) hfits
  have hlen : headerSize + (ntfBody (envelopeSeq w session addr)
      (written (headerSeq session) msgId msg.body)).length < Buffer.maxSize := by
    rw [ntfBody_length, Tcp.written_length]
    unfold headerSize at hfits ⊢
    omega
  refine ⟨w', _, hsend, hsent, ?_⟩
  intro packet reads hbytes
  rw [bytes_sendMsgNtf hlen, Option.some.injEq] at hbytes
  obtain ⟨x', inner, hreads, hunread, hcursor, hcalled, _⟩ := onRecvMsgs_sendMsgNtf hreceiver
    hreceiving hknown (envelopeSeq_lt hrun session addr) hlen hbytes.symm
  have hinner : inner.getID = msgId := by
    have hfront : inner.unread =
        (Frame.write (headerSeq session) msgId msg.body hbody).bytes ++ [] := by
      rw [List.append_nil]
      exact hunread
    rw [Tcp.getID_of_front hcursor hfront, Frame.write_id hbody hid]
  obtain ⟨c, hread⟩ := Tcp.read_of_written receiver.beyond hbody hcursor hunread
    (Idlc.reads_of_store order htyped (Tcp.store_ofValue hmsg))
  rw [hinner] at hcalled
  exact ⟨x', inner, c, hreads, hcalled hserves, hinner, hread⟩

/-- The address of a router. -/
def lobbyServer : Address :=
  { serviceName := [108], castType := Address.uniCast, id := 9, msgSeq := 0 }

/-- A router at which another one has registered, over session 0. -/
def lobbyRegisters : List Step :=
  [.accept 0, .setAddressReq 0 (some lobbyServer), .setAddressNtf 0]

/-- A router process to which every address is registered, with a link. -/
def openServer (host : Host) : Tcp.World Server :=
  Tcp.World.greeted host.manager
    { router := openRouter
      clients := fun _ => { attached := false, handlers := fun _ => false }
      calls := []
      asking := []
      asked := 0
      crashed := none }

theorem openServer_receiving
    (host : Host)
    (hpool : (host.pool 1).isSome) :
    Receiving (openServer host) 0 0 [] :=
  Tcp.greeted_receiving host.manager _ hpool

/-- The file with an enum Color and a struct Canvas of three cells. -/
def canvasFile : Idlc.IdlFile ["Canvas", "Color"] :=
  .declare
    (.declare .empty "Color" (.enum [none, some 7]))
    "Canvas"
    (.message none
      [⟨"names", .plain (.map (.primitive .uint32) (.userDefine "Color" Idlc.color_declared))⟩,
        ⟨"cells", .staticArray (.userDefine "Color" Idlc.color_declared) 3⟩])

theorem canvasFile_storeClear :
    canvasFile.Forall (Idlc.NamedDecl.HasFields Idlc.StoreClear) := by
  refine ⟨⟨trivial, trivial⟩, ?_⟩
  simp [Idlc.NamedDecl.HasFields, Idlc.StoreClear]

theorem canvasFile_loadClear :
    canvasFile.Forall (Idlc.NamedDecl.HasFields Idlc.LoadClear) := by
  refine ⟨⟨trivial, trivial⟩, ?_⟩
  simp [Idlc.NamedDecl.HasFields, Idlc.LoadClear]

theorem exists_canvas :
    ∃ msg, Tcp.Msg.ofFile (fun {_} _ => .ofWords) canvasFile "Canvas" (by simp) 1
      (Idlc.blank 3) = some msg ∧ msg.body.length = 24 := by
  rw [Tcp.ofFile_eq _ canvasFile_storeClear]
  obtain ⟨msg, hmsg, hbody⟩ := @Tcp.exists_ofValue (fun {_} _ => .ofWords) _ canvasFile.layout
    "Canvas" (by simp) 1 (Idlc.blank 3) _ rfl
  exact ⟨msg, hmsg, by rw [hbody]; rfl⟩

/-- A canvas is sent to a router whose handlers are static. -/
theorem routerSendMsg_transparent_blank :
    ∃ w w' msg buffer,
      run staticHost.toEnv (World.initial Address.default) lobbyRegisters = .ok w ∧
      routerSendMsg staticHost.toEnv w none lobbyServer msg = .ok w' ∧
      w'.sentTo 0 = .sendMsgNtf 0 buffer :: w.sentTo 0 ∧
      ∀ packet reads, (Message.sendMsgNtf 0 buffer).bytes packet = some reads.flatten →
        ∃ x' inner c, onRecvMsgs staticHost.manager 0 (openServer staticHost) reads = .ok x' ∧
          (x'.app.findSession 0).calls = [({ Address.default with msgSeq := 0 }, inner)] ∧
          inner.getID = 1 ∧
          inner.read staticHost.beyond
            (canvasFile.serializer (fun {_} _ => .ofWords) "Canvas" (by simp)).load =
              .returns (Idlc.blank 3) c := by
  obtain ⟨msg, hmsg, hbody⟩ := exists_canvas
  obtain ⟨w, hrun, hidle, hroute, hattached⟩ : ∃ w,
      run staticHost.toEnv (World.initial Address.default) lobbyRegisters = .ok w ∧
      w.casting = [] ∧ w.tables.uni lobbyServer.key = some 0 ∧ (w.sessions 0).attached = true :=
    ⟨_, rfl, rfl, rfl, rfl⟩
  obtain ⟨w', buffer, hsend, hsent, hreads⟩ :=
    @routerSendMsg_transparent _ _ _ _ _ 1 _ _ staticHost staticHost _ lobbyServer _ w
      (openServer staticHost) none 0 0 0 0 canvasFile_storeClear canvasFile_loadClear hmsg
      (Idlc.blank_typed (by decide)) (by decide)
      (by rw [hbody]; decide) (fun _ => rfl) hrun hidle (.inl ⟨rfl, hroute⟩) hattached
      (fun _ => rfl)
      (openServer_receiving staticHost rfl) rfl trivial
  exact ⟨w, w', msg, buffer, hrun, hsend, hsent, hreads⟩

/-- A host whose handlers are those of client sessions. -/
def findHost : Host :=
  { staticHost with factory := fun _ => some .find }

/-- The handler of the canvas is that of a client session, and none waits. -/
theorem routerSendMsg_not_transparent :
    findHost.factory 1 = some .find ∧
    ∃ w w' msg buffer,
      Tcp.Msg.ofFile (fun {_} _ => .ofWords) canvasFile "Canvas" (by simp) 1
        (Idlc.blank 3) = some msg ∧
      headerSize + msg.body.length + 18 < Buffer.maxSize ∧
      run staticHost.toEnv (World.initial Address.default) lobbyRegisters = .ok w ∧
      w.tables.uni lobbyServer.key = some 0 ∧
      routerSendMsg staticHost.toEnv w none lobbyServer msg = .ok w' ∧
      w'.sentTo 0 = .sendMsgNtf 0 buffer :: w.sentTo 0 ∧
      ∀ packet reads, (Message.sendMsgNtf 0 buffer).bytes packet = some reads.flatten →
        ∃ x', onRecvMsgs findHost.manager 0 (openServer findHost) reads = .ok x' ∧
          (x'.app.findSession 0).calls = [] := by
  obtain ⟨msg, hmsg, hbody⟩ := exists_canvas
  obtain ⟨w, hrun, hidle, hroute, hattached⟩ : ∃ w,
      run staticHost.toEnv (World.initial Address.default) lobbyRegisters = .ok w ∧
      w.casting = [] ∧ w.tables.uni lobbyServer.key = some 0 ∧ (w.sessions 0).attached = true :=
    ⟨_, rfl, rfl, rfl, rfl⟩
  have hfits : headerSize + msg.body.length + 18 < Buffer.maxSize := by
    rw [hbody]
    decide
  obtain ⟨w', hsend, hsent⟩ := @routerSendMsg_reaches w 0 staticHost.toEnv none lobbyServer msg
    (fun _ => rfl) hidle (.inl ⟨rfl, hroute⟩) hattached
    (storable_ofValue ((Tcp.ofFile_eq _ canvasFile_storeClear _ _ _ _).symm.trans hmsg) hfits)
  refine ⟨rfl, w, w', msg, _, hmsg, hfits, hrun, hroute, hsend, hsent, ?_⟩
  intro packet reads hbytes
  have hlen : headerSize + (ntfBody 0 (written 0 msg.msgId msg.body)).length <
      Buffer.maxSize := by
    rw [ntfBody_length, Tcp.written_length]
    unfold headerSize at hfits ⊢
    omega
  have hcut := (bytes_sendMsgNtf hlen packet).symm.trans hbytes
  rw [Option.some.injEq] at hcut
  obtain ⟨x', inner, hreads, _, _, _, hnobody⟩ := @onRecvMsgs_sendMsgNtf findHost
    (openServer findHost) 0 0 0 0 _ reads (fun _ => rfl) (openServer_receiving findHost rfl)
    rfl (by decide) hlen hcut.symm
  refine ⟨x', hreads, hnobody ?_⟩
  rintro ⟨r, entry, _, hwaiting, _⟩
  cases hwaiting

end Encapsulation

end Router
end Gamnet
