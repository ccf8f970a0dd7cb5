import Gamnet.Http.LinkManager

/-!
# Request lines

A request line has a method, a path and perhaps a query. OnRecvMsg finds the path and the
query in it, wherever else a '/' occurs. The query goes through C strings on its way to
Request: curl_easy_unescape gets one, and its result is read as one. So Request is built
from the unescaped query exactly if this has no zero byte (`onRecvMsg_dispatches_iff`).
-/

namespace Gamnet
namespace Http

open Bytes
open PercentEncoding

/-- A method, a path behind its '/', and a query if there is one. -/
structure HttpLine where
  method : Bytes
  path : Bytes
  query : Option Bytes
  method_ok : slash ∉ method ∧ space ∉ method ∧ cr ∉ method ∧ lf ∉ method
  path_ok : questionMark ∉ path ∧ space ∉ path ∧ cr ∉ path ∧ lf ∉ path
  query_ok : ∀ q, query = some q → space ∉ q ∧ cr ∉ q ∧ lf ∉ q

/-- The text "HTTP/1.1". -/
def httpVersion : Bytes := [0x48, 0x54, 0x54, 0x50, 0x2F, 0x31, 0x2E, 0x31]

/-- The query with its '?'. -/
def queryPart : Option Bytes → Bytes
  | none => []
  | some q => questionMark :: q

/-- What the line asks for. -/
def HttpLine.target (line : HttpLine) : Bytes :=
  line.path ++ queryPart line.query

/-- The line, without its CR LF. -/
def HttpLine.bytes (line : HttpLine) : Bytes :=
  line.method ++ space :: slash :: (line.target ++ space :: httpVersion)

/-- The unescaped query, which is empty if there is none. -/
def HttpLine.unescaped (line : HttpLine) : Bytes :=
  decode (line.query.getD [])

/-- OnRecvMsg finds the uri and the parameter text in the request, and dispatches the uri
with the Request that is built from this text. -/
def Dispatches (unescape : Bytes → Bytes) (beyond : UInt8) (w : Link) (uri param : Bytes) :
    Prop :=
  ∃ i params, endOfLine beyond w.readBuffer = some i ∧
    uriOf (w.readBuffer.unread.take (i + 1)) = uri ∧
      paramOf unescape (w.readBuffer.unread.take (i + 1)) = param ∧
        request param = some params ∧
          onRecvMsg unescape beyond w =
            some { w with isOpen := false, dispatched := w.dispatched ++ [(uri, params)] }

section Line

variable {line : HttpLine}

theorem mem_queryPart_iff
    {query : Option Bytes} {b : UInt8} :
    b ∈ queryPart query ↔ ∃ q, query = some q ∧ (b = questionMark ∨ b ∈ q) := by
  cases query with
  | none => simp [queryPart]
  | some q => simp [queryPart]

theorem HttpLine.notMem_target
    {b : UInt8}
    (hpath : b ∉ line.path)
    (hquestion : b ≠ questionMark)
    (hquery : ∀ q, line.query = some q → b ∉ q) :
    b ∉ line.target := by
  rw [HttpLine.target, List.mem_append, mem_queryPart_iff]
  rintro (h | ⟨q, hq, rfl | h⟩)
  · exact hpath h
  · exact hquestion rfl
  · exact hquery q hq h

theorem HttpLine.space_notMem_target :
    space ∉ line.target :=
  HttpLine.notMem_target line.path_ok.2.1 (by decide) fun q hq => (line.query_ok q hq).1

theorem HttpLine.cr_notMem :
    cr ∉ line.bytes := by
  have htarget : cr ∉ line.target :=
    HttpLine.notMem_target line.path_ok.2.2.1 (by decide) fun q hq => (line.query_ok q hq).2.1
  simp only [HttpLine.bytes, List.mem_append, List.mem_cons, not_or]
  exact ⟨line.method_ok.2.2.1, by decide, by decide, htarget, by decide, by decide⟩

theorem HttpLine.lf_notMem :
    lf ∉ line.bytes := by
  have htarget : lf ∉ line.target :=
    HttpLine.notMem_target line.path_ok.2.2.2 (by decide) fun q hq => (line.query_ok q hq).2.2
  simp only [HttpLine.bytes, List.mem_append, List.mem_cons, not_or]
  exact ⟨line.method_ok.2.2.2, by decide, by decide, htarget, by decide, by decide⟩

/-- The uri text of the request, which ends with its CR. -/
theorem HttpLine.uriText_eq
    (hlen : line.bytes.length < 2 ^ 63) :
    uriText (line.bytes ++ [cr]) = line.target ++ space :: (httpVersion ++ [cr]) := by
  have hnpos : npos = 2 ^ 64 - 1 := rfl
  have hnone : lf ∉ line.bytes ++ [cr] := by
    rw [List.mem_append, List.mem_singleton, not_or]
    exact ⟨line.lf_notMem, by decide⟩
  have hfront : slash ∉ line.method ++ [space] := by
    rw [List.mem_append, List.mem_singleton, not_or]
    exact ⟨line.method_ok.1, by decide⟩
  have hsplit : line.bytes ++ [cr] = (line.method ++ [space]) ++ slash ::
      (line.target ++ space :: (httpVersion ++ [cr])) := by
    simp [HttpLine.bytes]
  have hlength := congrArg List.length hsplit
  simp only [List.length_append, List.length_cons, List.length_nil] at hlength
  simp only [uriText]
  rw [find_eq_npos hnone, substr_of_le (by simp; omega), hsplit, find_append_cons hfront,
    posAdd_of_lt (by simp; omega), substr_length_succ, List.take_of_length_le]
  simp only [List.length_append, List.length_cons, List.length_nil]
  omega

theorem HttpLine.length_path_lt :
    line.path.length < line.bytes.length := by
  simp only [HttpLine.bytes, HttpLine.target, List.length_append, List.length_cons]
  omega

theorem HttpLine.questionMark_notMem
    (hquery : line.query = none) :
    questionMark ∉ line.target ++ space :: (httpVersion ++ [cr]) := by
  rw [HttpLine.target, hquery, queryPart, List.append_nil, List.mem_append, not_or]
  exact ⟨line.path_ok.1, by decide⟩

/-- The uri is the path. -/
theorem HttpLine.uriOf_eq
    (hlen : line.bytes.length < 2 ^ 63) :
    uriOf (line.bytes ++ [cr]) = line.path := by
  have hnpos : npos = 2 ^ 64 - 1 := rfl
  have hshort := line.length_path_lt
  simp only [uriOf]
  rw [HttpLine.uriText_eq hlen]
  cases hquery : line.query with
  | none =>
      rw [find_eq_npos (HttpLine.questionMark_notMem hquery), if_pos rfl,
        find_append_cons line.space_notMem_target, HttpLine.target, hquery, queryPart,
        List.append_nil, substr_zero_append]
  | some q =>
      rw [HttpLine.target, hquery, queryPart, List.append_assoc, List.cons_append,
        find_append_cons line.path_ok.1, if_neg (by omega), substr_zero_append]

/-- The parameter text is the query, read as a C string in front of the unescaping and
behind it. -/
theorem HttpLine.paramOf_eq
    {unescape : Bytes → Bytes}
    (hunescape : Unescapes unescape)
    (hlen : line.bytes.length < 2 ^ 63) :
    paramOf unescape (line.bytes ++ [cr]) =
      cString (decode (cString (line.query.getD []))) := by
  have hnpos : npos = 2 ^ 64 - 1 := rfl
  have hspace := find_append_cons (t := httpVersion ++ [cr]) line.space_notMem_target
  simp only [paramOf]
  rw [HttpLine.uriText_eq hlen, hspace]
  cases hquery : line.query with
  | none =>
      rw [find_eq_npos (HttpLine.questionMark_notMem hquery), if_neg (not_not.mpr rfl)]
      rfl
  | some q =>
      have htarget : line.target = line.path ++ questionMark :: q := by
        rw [HttpLine.target, hquery, queryPart]
      have hlength : line.bytes.length = line.method.length + (line.path.length +
          (q.length + 1) + (httpVersion.length + 1) + 1 + 1) := by
        simp [HttpLine.bytes, htarget]
        omega
      have hq : line.target.length = line.path.length + 1 + q.length := by
        rw [htarget, List.length_append, List.length_cons]
        omega
      rw [hq, htarget, List.append_assoc, List.cons_append, find_append_cons line.path_ok.1,
        if_pos (by omega), posAdd_of_lt (by omega), posSub_of_le (by omega) (by omega),
        Nat.add_sub_cancel_left, substr_length_succ, List.take_left,
        hunescape _ (zero_notMem_cString q), Option.getD_some]

end Line

/-- No parameter text has a zero byte. -/
theorem zero_notMem_paramOf
    (unescape : Bytes → Bytes) (request : Bytes) :
    0 ∉ paramOf unescape request := by
  simp only [paramOf]
  split
  · exact zero_notMem_cString _
  · exact List.not_mem_nil

/-- The unescaped query comes through the C strings exactly if it has no zero byte. -/
theorem cString_decode_iff
    (query : Bytes) :
    cString (decode (cString query)) = decode query ↔ 0 ∉ decode query := by
  constructor
  · intro h
    rw [← h]
    exact zero_notMem_cString _
  · intro hzero
    have hquery : 0 ∉ query := fun h => hzero (mem_decode (by decide) (by decide) h)
    rw [cString_of_notMem hquery, cString_of_notMem hzero]

/-- A read that begins with a request line is dispatched with the path of the line and the
Request of its unescaped query if and only if this has no zero byte. -/
theorem onRecvMsg_dispatches_iff
    {unescape : Bytes → Bytes} {beyond : UInt8} {w : Link}
    (hunescape : Unescapes unescape)
    (hcapacity : w.readBuffer.capacity = Buffer.maxSize)
    (line : HttpLine)
    {rest : Bytes}
    (hunread : w.readBuffer.unread = line.bytes ++ cr :: lf :: rest) :
    Dispatches unescape beyond w line.path line.unescaped ↔ 0 ∉ line.unescaped := by
  have hsize : line.bytes.length + (rest.length + 2) = w.readBuffer.size := by
    rw [← Buffer.unread_length, hunread]
    simp
  have hfits := w.readBuffer.size_le_capacity
  have hmax : Buffer.maxSize = 65535 := rfl
  have hlen : line.bytes.length < 2 ^ 63 := by
    omega
  have hend := @endOfLine_of_unread beyond _ _ _ line.cr_notMem hunread
  have htext : w.readBuffer.unread.take (line.bytes.length + 1) = line.bytes ++ [cr] := by
    rw [hunread, List.take_append]
    simp
  have hparam := HttpLine.paramOf_eq hunescape hlen
  rw [HttpLine.unescaped, ← cString_decode_iff]
  constructor
  · rintro ⟨i, params, hi, -, hdecoded, -, -⟩
    cases hend.symm.trans hi
    rw [htext, hparam] at hdecoded
    exact hdecoded
  · intro hdecoded
    have hshort : (decode (line.query.getD [])).length < 2 ^ 63 := by
      have hle := length_paramOf_le hunescape (line.bytes ++ [cr])
      rw [hparam, hdecoded, List.length_append, List.length_singleton] at hle
      omega
    refine ⟨line.bytes.length, _, hend, ?_, ?_, request_eq hshort, ?_⟩
    · rw [htext, HttpLine.uriOf_eq hlen]
    · rw [htext, hparam, hdecoded]
    · simp only [onRecvMsg, hend, htext, hparam, hdecoded, request_eq hshort,
        HttpLine.uriOf_eq hlen]

/-- A link whose first read is the line. -/
def HttpLine.read (line : HttpLine) : Link :=
  { opened [] with
    readBuffer := received (Buffer.ofData (List.replicate Buffer.maxSize 0))
      (line.bytes ++ [cr, lf]) }

theorem HttpLine.read_readBuffer
    (line : HttpLine)
    (hfits : (line.bytes ++ [cr, lf]).length ≤ Buffer.maxSize) :
    line.read.readBuffer.capacity = Buffer.maxSize ∧
      line.read.readBuffer.unread = line.bytes ++ cr :: lf :: [] := by
  simp only [HttpLine.read]
  exact received_new hfits

/-- The line of a GET of "/q" with a query. -/
def getHttpLine (query : Bytes)
    (hquery : space ∉ query ∧ cr ∉ query ∧ lf ∉ query) : HttpLine where
  method := [0x47, 0x45, 0x54]
  path := [0x71]
  query := some query
  method_ok := by decide
  path_ok := by decide
  query_ok := by
    intro q hq
    cases hq
    exact hquery

/-- The query "a=1". -/
theorem onRecvMsg_dispatches_iff_plain :
    Dispatches decode 0 (getHttpLine [0x61, 0x3D, 0x31] (by decide)).read [0x71]
        (getHttpLine [0x61, 0x3D, 0x31] (by decide)).unescaped ↔
      0 ∉ (getHttpLine [0x61, 0x3D, 0x31] (by decide)).unescaped := by
  have hbuffer := (getHttpLine [0x61, 0x3D, 0x31] (by decide)).read_readBuffer (by decide)
  generalize (getHttpLine [0x61, 0x3D, 0x31] (by decide)).read = w at hbuffer ⊢
  exact onRecvMsg_dispatches_iff (fun _ _ => rfl) hbuffer.1
    (getHttpLine [0x61, 0x3D, 0x31] (by decide)) hbuffer.2

/-- The query "a=%00" loses its zero byte. -/
theorem onRecvMsg_not_dispatches :
    ∃ (unescape : Bytes → Bytes) (beyond : UInt8) (w : Link) (line : HttpLine) (rest : Bytes),
      Unescapes unescape ∧ w.readBuffer.capacity = Buffer.maxSize ∧
        w.readBuffer.unread = line.bytes ++ cr :: lf :: rest ∧
          ¬Dispatches unescape beyond w line.path line.unescaped := by
  have hbuffer :=
    (getHttpLine [0x61, 0x3D, 0x25, 0x30, 0x30] (by decide)).read_readBuffer (by decide)
  refine ⟨decode, 0, _, getHttpLine [0x61, 0x3D, 0x25, 0x30, 0x30] (by decide), [],
    fun _ _ => rfl, hbuffer.1, hbuffer.2, ?_⟩
  rintro ⟨i, params, -, -, hparam, -, -⟩
  have hzero : 0 ∉ (getHttpLine [0x61, 0x3D, 0x25, 0x30, 0x30] (by decide)).unescaped := by
    rw [← hparam]
    exact zero_notMem_paramOf _ _
  exact hzero (by decide)

end Http
end Gamnet
