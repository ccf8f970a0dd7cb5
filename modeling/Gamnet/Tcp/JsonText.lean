import Gamnet.Json.Fields
import Gamnet.Tcp.Reconnect

/-!
# The JSON texts of the link manager

Its answers are objects that StyledWriter writes. Recv_Reconnect_Req hands Size() bytes behind
the header to the reader, with what follows the request in the packet, and the reader reads the
whole capacity of its copy. A request whose body begins with a JSON object of the key and the
token of a session takes this session over, whatever these bytes are and however its own are cut
into reads.
-/

namespace Gamnet

namespace Tcp

open Json (Text Members Blank ValueText)
open Json.Reader (stackLimit)
open Json.Value (asInt asUInt asString)

def errorCodeName : Text :=
  ['e', 'r', 'r', 'o', 'r', '_', 'c', 'o', 'd', 'e']

def sessionKeyName : Text :=
  ['s', 'e', 's', 's', 'i', 'o', 'n', '_', 'k', 'e', 'y']

def sessionTokenName : Text :=
  ['s', 'e', 's', 's', 'i', 'o', 'n', '_', 't', 'o', 'k', 'e', 'n']

def msgSeqName : Text :=
  ['m', 's', 'g', '_', 's', 'e', 'q']

section Answers

/-- An int. -/
def intValue (n : Nat) : Json.Value :=
  .int (Int64.ofNat n)

/-- A uint32_t. -/
def uintValue (n : Nat) : Json.Value :=
  .uint (UInt64.ofNat (n % 2 ^ 32))

/-- The members that are assigned to an answer, in the order of the assignments. -/
def Message.fields : Message → Option Members
  | .connectAns _ errorCode sessionKey sessionToken =>
      some [(errorCodeName, intValue errorCode), (sessionKeyName, uintValue sessionKey),
        (sessionTokenName, .string sessionToken.toList)]
  | .reconnectAns _ sessionKey sessionToken otherSeq =>
      some [(errorCodeName, intValue 0), (sessionKeyName, uintValue sessionKey),
        (sessionTokenName, .string sessionToken.toList), (msgSeqName, uintValue otherSeq)]
  | .reconnectError _ errorCode =>
      some [(errorCodeName, intValue errorCode)]
  | .heartBeatAns _ errorCode answered =>
      some [(errorCodeName, intValue errorCode), (msgSeqName, uintValue answered)]
  | .bytes _ => none

/-- The object of an answer. -/
def Message.json (m : Message) : Option Json.Value :=
  m.fields.map fun fields => .object (OrderedMap.insertAll [] fields)

/-- What a client takes out of an answer. -/
def Message.Reads (m : Message) (ans : Json.Value) : Prop :=
  match m with
  | .connectAns _ errorCode sessionKey sessionToken =>
      (ans.get errorCodeName).bind asInt = some (errorCode : Int) ∧
        (ans.get sessionKeyName).bind asUInt = some (sessionKey % 2 ^ 32) ∧
        (ans.get sessionTokenName).bind asString = some sessionToken.toList
  | .reconnectAns _ sessionKey sessionToken otherSeq =>
      (ans.get errorCodeName).bind asInt = some 0 ∧
        (ans.get sessionKeyName).bind asUInt = some (sessionKey % 2 ^ 32) ∧
        (ans.get sessionTokenName).bind asString = some sessionToken.toList ∧
        (ans.get msgSeqName).bind asUInt = some (otherSeq % 2 ^ 32)
  | .reconnectError _ errorCode =>
      (ans.get errorCodeName).bind asInt = some (errorCode : Int)
  | .heartBeatAns _ errorCode answered =>
      (ans.get errorCodeName).bind asInt = some (errorCode : Int) ∧
        (ans.get msgSeqName).bind asUInt = some (answered % 2 ^ 32)
  | .bytes _ => False

/-- The error code of an answer is an int. -/
def Message.CodeFits : Message → Prop
  | .connectAns _ errorCode _ _ => errorCode ≤ Json.Value.maxInt
  | .reconnectError _ errorCode => errorCode ≤ Json.Value.maxInt
  | .heartBeatAns _ errorCode _ => errorCode ≤ Json.Value.maxInt
  | _ => True

theorem asInt_intValue
    {n : Nat}
    (h : n ≤ Json.Value.maxInt) :
    asInt (intValue n) = some (n : Int) := by
  have hmax : n ≤ 2 ^ 31 - 1 := h
  have hvalue : (Int64.ofNat n).toInt = n :=
    Int64.toInt_ofNat_of_lt (by omega)
  have hrange : Json.Value.minInt ≤ (n : Int) ∧ (n : Int) ≤ Json.Value.maxInt :=
    ⟨Int.le_trans (by decide) (Int.natCast_nonneg n), Int.ofNat_le.mpr h⟩
  simp only [asInt, intValue, hvalue, if_pos hrange]

theorem asUInt_uintValue
    (n : Nat) :
    asUInt (uintValue n) = some (n % 2 ^ 32) := by
  have hlt : n % 2 ^ 32 < 2 ^ 32 := Nat.mod_lt _ (by decide)
  have hvalue : (UInt64.ofNat (n % 2 ^ 32)).toNat = n % 2 ^ 32 :=
    UInt64.toNat_ofNat_of_lt' (Nat.lt_trans hlt (by decide))
  have hle : n % 2 ^ 32 ≤ Json.Value.maxUInt := Nat.le_pred_of_lt hlt
  simp only [asUInt, uintValue, hvalue, if_pos hle]

theorem reads_fields
    {m : Message} {fields : Members}
    (hfields : m.fields = some fields)
    (hcode : m.CodeFits) :
    m.Reads (.object (OrderedMap.insertAll [] fields)) := by
  cases m with
  | connectAns =>
      cases hfields
      exact ⟨asInt_intValue hcode, asUInt_uintValue _, rfl⟩
  | reconnectAns =>
      cases hfields
      exact ⟨asInt_intValue (Nat.zero_le _), asUInt_uintValue _, rfl, asUInt_uintValue _⟩
  | reconnectError =>
      cases hfields
      exact asInt_intValue hcode
  | heartBeatAns =>
      cases hfields
      exact ⟨asInt_intValue hcode, asUInt_uintValue _⟩
  | bytes => cases hfields

theorem Message.Reads.congr
    {m : Message} {v v' : Json.Value}
    (h : m.Reads v)
    (heq : ∀ {α : Type} {as : Json.Value → Option α}, Json.Converts as → ∀ name,
      (v'.get name).bind as = (v.get name).bind as) :
    m.Reads v' := by
  have hint := heq Json.converts_asInt
  have huint := heq Json.converts_asUInt
  have hstring := heq Json.converts_asString
  cases m with
  | bytes => exact h
  | _ =>
      simp only [Message.Reads, hint, huint, hstring]
      exact h

theorem name_fields
    {m : Message} {fields : Members}
    (hfields : m.fields = some fields) :
    ∀ f ∈ fields, '\x00' ∉ f.1 ∧ f.2.depth = 1 := by
  cases m with
  | bytes => cases hfields
  | _ =>
      cases hfields
      simp [errorCodeName, sessionKeyName, sessionTokenName, msgSeqName, intValue, uintValue,
        Json.Value.depth]

theorem parse_append
    (document behind capacity : Text) :
    Json.Reader.parse (document ++ behind) capacity =
      Json.Reader.parse document (behind ++ capacity) := by
  unfold Json.Reader.parse
  rw [List.append_assoc]

/-- Of the text of an answer, with whatever bytes behind it, its fields are read. -/
theorem answer_reads
    {m : Message} {v : Json.Value}
    (hjson : m.json = some v)
    (hcode : m.CodeFits)
    (behind capacity : Text) :
    ∃ ans, Json.Reader.parse (Json.StyledWriter.write v ++ behind) capacity = .ok ans ∧
      m.Reads ans := by
  obtain ⟨fields, hfields, rfl⟩ := Option.map_eq_some_iff.mp hjson
  have hnames : ∀ f ∈ OrderedMap.insertAll [] fields, '\x00' ∉ f.1 ∧ f.2.depth = 1 :=
    fun f hf => name_fields hfields f
      ((OrderedMap.mem_of_mem_insertAll hf).resolve_right List.not_mem_nil)
  have hdepth := Json.memberDepths_le_iff.mpr fun f hf => (hnames f hf).2.le
  obtain ⟨ans, hparse, hsame⟩ := Json.fields_of_write
    (OrderedMap.Ordered.insertAll List.Pairwise.nil _) (fun f hf => (hnames f hf).1)
    (Nat.le_trans (Nat.succ_le_succ hdepth) (by decide)) (behind ++ capacity)
  refine ⟨ans, ?_, (reads_fields hfields hcode).congr hsame⟩
  rw [parse_append]
  exact hparse

theorem answer_reads_connectAns :
    ∃ v ans, (Message.connectAns 0 0 1 "token").json = some v ∧
      Json.Reader.parse (Json.StyledWriter.write v ++ ['\x00']) [] = .ok ans ∧
      (Message.connectAns 0 0 1 "token").Reads ans := by
  obtain ⟨ans, hparse, hreads⟩ :=
    answer_reads (m := Message.connectAns 0 0 1 "token") rfl (Nat.zero_le _) ['\x00'] []
  exact ⟨_, ans, rfl, hparse, hreads⟩

end Answers

/-- The characters of a string of bytes. -/
def chars (bytes : List UInt8) : Text :=
  bytes.map fun b => Char.ofNat b.toNat

/-- What Recv_Reconnect_Req reads from a JSON text. An exception of the JSON library is not the
one that it catches. -/
def readRequest
    (spare : List UInt8 → Text) (onDouble : List UInt8 → ReconnectReq)
    (text : List UInt8) : ReconnectReq :=
  match Json.Reader.parse (chars text) (spare text) with
  | .error .error => .malformed
  | .error .stackLimit => .badField
  | .error .double => onDouble text
  | .ok req =>
      match (req.get sessionKeyName).bind Json.Value.asUInt with
      | none => .badField
      | some sessionKey =>
          match (req.get sessionTokenName).bind Json.Value.asString with
          | none => .badField
          | some sessionToken => .request sessionKey (String.ofList sessionToken)

/-- A body that begins with a JSON object of a session key and a session token. -/
structure RequestText (body : List UInt8) (key : Nat) (token : Text) : Prop where
  text : ∃ blank text members n rest, Blank blank ∧ ValueText (.object members) text n ∧
    n ≤ stackLimit ∧ chars body = blank ++ (text ++ rest) ∧
      (Json.Value.get sessionKeyName (.object members)).bind Json.Value.asUInt = some key ∧
        (Json.Value.get sessionTokenName (.object members)).bind Json.Value.asString = some token

variable {A : Type} {env : Env A} {w : World A} {l : LinkId} {s other : SessionId} {f : Frame}
  {body : List UInt8} {key : Nat} {token : Text}
  {spare : List UInt8 → Text} {onDouble : List UInt8 → ReconnectReq}

/-- What follows a request in its packet changes nothing. -/
theorem readRequest_append
    (h : RequestText body key token)
    (trailing : List UInt8) :
    readRequest spare onDouble (body ++ trailing) = .request key (String.ofList token) := by
  obtain ⟨blank, text, members, n, rest, hblank, htext, hdepth, hbody, hkey, htoken⟩ := h.text
  have hchars : chars (body ++ trailing) = blank ++ (text ++ (rest ++ chars trailing)) := by
    have happend : chars (body ++ trailing) = chars body ++ chars trailing := List.map_append
    rw [happend, hbody, List.append_assoc, List.append_assoc]
  have hends : Json.Ends (.object members)
      (rest ++ chars trailing ++ spare (body ++ trailing)) :=
    trivial
  have hparse := Json.parse_text hblank htext _ hends
  rw [if_pos hdepth, ← hchars] at hparse
  unfold readRequest
  rw [hparse]
  simp only [hkey, htoken]

theorem validReconnect_of_requestText
    (hparse : env.parse = readRequest spare onDouble)
    (hhandler : env.handlers msgIdReconnectReq = some .reconnectReq)
    (hid : f.id = msgIdReconnectReq)
    (hseq : (w.sessions s).msgSeq < f.seq)
    (hne : other ≠ s)
    (htext : RequestText f.body key token)
    (hkey : w.registry key = some other)
    (htoken : (w.sessions other).sessionToken = String.ofList token) :
    ValidReconnect env w s f other where
  id := hid
  handler := hhandler
  seq := hseq
  other_ne := hne
  request := by
    refine ⟨key, String.ofList token, fun trailing => ?_, hkey, htoken⟩
    rw [hparse]
    exact readRequest_append htext trailing

/-- A JSON text with the key and the token of a session takes it over, in whatever reads the
request comes. -/
theorem requestText_takes_over
    {front : List (List UInt8)} {last : List UInt8}
    (htcp : env.kind = .tcp)
    (hparse : env.parse = readRequest spare onDouble)
    (hhandler : env.handlers msgIdReconnectReq = some .reconnectReq)
    (hstart : Receiving w l s [])
    (hid : f.id = msgIdReconnectReq)
    (hseq : (w.sessions s).msgSeq < f.seq)
    (hne : other ≠ s)
    (htext : RequestText f.body key token)
    (hkey : w.registry key = some other)
    (htoken : (w.sessions other).sessionToken = String.ofList token)
    (hcut : front.flatten ++ last = f.bytes)
    (hlast : last ≠ []) :
    ∃ w', onRecvMsgs env l w (front ++ [last]) = .ok w' ∧
      Receiving w' l other [] ∧ TakenOver l s other f w w' := by
  have hvalid := validReconnect_of_requestText hparse hhandler hid hseq hne htext hkey htoken
  exact onRecvMsgs_reconnect env htcp hstart hvalid hcut hlast

section Examples

/-- A manager with the JSON reader of the library and without application handlers. -/
def Env.reading : Env Unit :=
  Env.listen (fun _ _ => "token") (readRequest (fun _ => []) fun _ => .malformed) fun _ => none

theorem requestText_token :
    RequestText reconnectReq.body 1 ['t', 'o', 'k', 'e', 'n'] where
  text := by
    have hkeyName : Json.StringText sessionKeyName sessionKeyName :=
      Json.stringText_self (by simp [sessionKeyName])
    have htokenName : Json.StringText sessionTokenName sessionTokenName :=
      Json.stringText_self (by simp [sessionTokenName])
    have htoken : Json.StringText ['t', 'o', 'k', 'e', 'n'] ['t', 'o', 'k', 'e', 'n'] :=
      Json.stringText_self (by simp)
    have hkey := @Json.NumberText.natural ['1'] (by decide) (by decide) (by decide)
    have hmembers := Json.MembersText.cons
      (.mk Json.blank_nil hkeyName Json.blank_nil Json.blank_nil (.number hkey) Json.blank_nil)
      (.single (.mk Json.blank_nil htokenName Json.blank_nil Json.blank_nil (.string htoken)
        Json.blank_nil))
    exact ⟨[], _, _, _, [], Json.blank_nil, .object hmembers, by decide, by decide, by decide,
      by decide⟩

theorem run_reading :
    run Env.reading (World.initial ()) rejoinSteps =
        .ok (World.rejoining Env.reading ()) ∧
      Rejoining "token" (World.rejoining Env.reading ()) :=
  run_rejoinSteps _ _ _ ()

theorem requestText_takes_over_token :
    ∃ w', onRecvMsgs Env.reading 1 (World.rejoining Env.reading ())
        ([reconnectReq.bytes.take 7] ++ [reconnectReq.bytes.drop 7]) = .ok w' ∧
      Receiving w' 1 0 [] ∧
      TakenOver 1 1 0 reconnectReq (World.rejoining Env.reading ()) w' := by
  obtain ⟨_, h⟩ := run_reading
  have hseq : ((World.rejoining Env.reading ()).sessions 1).msgSeq < reconnectReq.seq := by
    rw [h.msgSeq]
    decide
  have hcut : [reconnectReq.bytes.take 7].flatten ++ reconnectReq.bytes.drop 7 =
      reconnectReq.bytes := by
    rw [List.flatten_singleton, List.take_append_drop]
  exact requestText_takes_over rfl rfl rfl h.receiving rfl hseq (by decide) requestText_token
    h.registered.registry h.registered.sessionToken hcut (by decide)

end Examples

end Tcp
end Gamnet
