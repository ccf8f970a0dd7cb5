import Gamnet.Http.Request
import Gamnet.Lib.PercentEncoding
import Gamnet.Lib.Transition
import Gamnet.Library.Buffer

/-!
# Http::LinkManager::OnRecvMsg

OnRecvMsg looks for CR LF in the bytes of one read, takes the text up to the CR as the
request, and finds the uri and the parameters in it: the uri is behind the first '/', up
to the first '?' or space, and the parameters are between the '?' and the space. They
are unescaped as a whole and read as a C string before Request divides them. Then the
request is dispatched and the link is closed.

The test for LF looks at the byte behind the CR also when the CR is the last byte of the
read. What the array of the read buffer holds there is left from earlier reads; behind
the array any byte can follow.

curl is not part of the repository: curl_easy_unescape is a parameter, and a handle for
it is always there.
-/

namespace Gamnet
namespace Http

open Bytes

/-- Carriage return. -/
def cr : UInt8 := 0x0D

/-- Line feed. -/
def lf : UInt8 := 0x0A

/-- The character '/'. -/
def slash : UInt8 := 0x2F

/-- The character '?'. -/
def questionMark : UInt8 := 0x3F

/-- The space. -/
def space : UInt8 := 0x20

/-- The uri of a request text with what follows it. -/
def uriText (request : Bytes) : Bytes :=
  let initLine := substr request 0 (find request lf)
  substr initLine (posAdd (find initLine slash) 1) npos

/-- The uri of a request text. -/
def uriOf (request : Bytes) : Bytes :=
  let uri := uriText request
  let uriEnd := find uri questionMark
  let paramEnd := find uri space
  let uriEnd := if npos = uriEnd then paramEnd else uriEnd
  substr uri 0 uriEnd

/-- The parameter text of a request text. The result of curl_easy_unescape is assigned
as a C string, and so is its argument passed. -/
def paramOf (unescape : Bytes → Bytes) (request : Bytes) : Bytes :=
  let uri := uriText request
  let paramStart := find uri questionMark
  let paramEnd := find uri space
  if npos ≠ paramStart then
    cString (unescape (cString
      (substr uri (posAdd paramStart 1) (posSub paramEnd (posAdd paramStart 1)))))
  else []

/-- The byte at ReadPtr() + i; behind the array it is any byte. -/
def byteAt (beyond : UInt8) (b : Buffer) (i : Nat) : UInt8 :=
  b.data.getD (b.readCursor + i) beyond

/-- The position of CR LF that the scan finds. -/
def endOfLine (beyond : UInt8) (b : Buffer) : Option Nat :=
  (List.range b.size).find? fun i => byteAt beyond b i = cr ∧ byteAt beyond b (i + 1) = lf

/-- The read buffer of a link, whether its socket is open, and what was dispatched. -/
structure Link where
  readBuffer : Buffer
  isOpen : Bool
  dispatched : List (Bytes × Params)

/-- OnRecvMsg. The link is closed behind a dispatch. -/
def onRecvMsg (unescape : Bytes → Bytes) (beyond : UInt8) (w : Link) : Option Link :=
  match endOfLine beyond w.readBuffer with
  | none => some w
  | some i =>
      let text := w.readBuffer.unread.take (i + 1)
      match request (paramOf unescape text) with
      | none => none
      | some params =>
          some { w with isOpen := false, dispatched := w.dispatched ++ [(uriOf text, params)] }

/-- The bytes of a read behind the write cursor. -/
def received (b : Buffer) (bytes : Bytes) : Buffer :=
  if h : bytes ≠ [] ∧ b.writeCursor + bytes.length ≤ b.data.length then
    b.writeBehind bytes h.2 h.1
  else b

/-- One read of AsyncRead: OnRecvMsg, and the buffer is cleared. A closed socket reads
nothing. -/
def asyncRead (unescape : Bytes → Bytes) (beyond : UInt8) (w : Link) (bytes : Bytes) :
    Option Link :=
  if w.isOpen then
    match onRecvMsg unescape beyond { w with readBuffer := received w.readBuffer bytes } with
    | none => none
    | some w => some { w with readBuffer := w.readBuffer.clear }
  else some w

/-- A link with an open socket whose read buffer has been used before. -/
def opened (data : Bytes) : Link where
  readBuffer := Buffer.ofData data
  isOpen := true
  dispatched := []

/-- curl_easy_unescape decodes percent-encoding. -/
def Unescapes (unescape : Bytes → Bytes) : Prop :=
  ∀ s, 0 ∉ s → unescape s = PercentEncoding.decode s

section Scan

variable {beyond : UInt8} {b : Buffer}

/-- A read into a cleared buffer: the bytes are queued, and behind them the array is as
it was. -/
theorem received_ofData
    {data bytes : Bytes}
    (hfits : bytes.length ≤ data.length) :
    (received (Buffer.ofData data) bytes).unread = bytes ∧
      (received (Buffer.ofData data) bytes).data = bytes ++ data.drop bytes.length ∧
      (received (Buffer.ofData data) bytes).readCursor = 0 := by
  unfold received
  split
  · rename_i h
    refine ⟨?_, ?_, rfl⟩
    · rw [Buffer.writeBehind_unread, (Buffer.unread_eq_nil_iff _).mpr (Buffer.ofData_size data),
        List.nil_append]
    · simp [Buffer.writeBehind, Buffer.ofData]
  · rename_i h
    have hnil : bytes = [] := by
      by_contra hne
      exact h ⟨hne, by simpa [Buffer.ofData] using hfits⟩
    subst hnil
    exact ⟨(Buffer.unread_eq_nil_iff _).mpr (Buffer.ofData_size data), by simp [Buffer.ofData], rfl⟩

/-- A first read. -/
theorem received_new
    {bytes : Bytes}
    (hfits : bytes.length ≤ Buffer.maxSize) :
    (received (Buffer.ofData (List.replicate Buffer.maxSize 0)) bytes).capacity =
        Buffer.maxSize ∧
      (received (Buffer.ofData (List.replicate Buffer.maxSize 0)) bytes).unread = bytes := by
  obtain ⟨hunread, hdata, _⟩ := @received_ofData (List.replicate Buffer.maxSize 0) bytes
    (le_of_le_of_eq hfits List.length_replicate.symm)
  refine ⟨?_, hunread⟩
  rw [Buffer.capacity, hdata, List.length_append, List.length_drop, List.length_replicate]
  omega

theorem byteAt_unread
    {i : Nat}
    (hi : i < b.size) :
    byteAt beyond b i = b.unread.getD i beyond := by
  have hw := b.write_le_length
  have hr := b.read_le_write
  have hi' : i < b.writeCursor - b.readCursor := hi
  simp only [byteAt, Buffer.unread, List.getD_eq_getElem?_getD]
  rw [List.getElem?_take_of_lt hi, List.getElem?_drop]

/-- A CR LF in the queued bytes ends the line when no CR is in front of it. -/
theorem endOfLine_of_unread
    {line rest : Bytes}
    (hcr : cr ∉ line)
    (hunread : b.unread = line ++ cr :: lf :: rest) :
    endOfLine beyond b = some line.length := by
  have hsize : b.size = line.length + (rest.length + 2) := by
    rw [← Buffer.unread_length, hunread]
    simp
  unfold endOfLine
  rw [List.find?_range_eq_some]
  have hat : ∀ i, i < b.size → byteAt beyond b i = (line ++ cr :: lf :: rest).getD i beyond := by
    intro i hi
    rw [byteAt_unread hi, hunread]
  refine ⟨?_, ?_, ?_⟩
  · rw [hat _ (by omega), hat _ (by omega)]
    simp [List.getD_eq_getElem?_getD]
  · simp only [List.mem_range]
    omega
  · intro j hj
    have hne : (line ++ cr :: lf :: rest).getD j beyond ≠ cr := by
      rw [List.getD_eq_getElem?_getD, List.getElem?_append_left hj, List.getElem?_eq_getElem hj]
      intro heq
      exact hcr (heq ▸ List.getElem_mem hj)
    simp only [Bool.not_eq_true', decide_eq_false_iff_not]
    rw [hat j (by omega)]
    exact fun h => hne h.1

end Scan

section Target

/-- The parameter text is not longer than the request. -/
theorem length_paramOf_le
    {unescape : Bytes → Bytes}
    (hunescape : Unescapes unescape)
    (request : Bytes) :
    (paramOf unescape request).length ≤ request.length := by
  have huri : (uriText request).length ≤ request.length :=
    (length_substr_le _ _ _).trans (length_substr_le _ _ _)
  simp only [paramOf]
  split
  · refine (length_cString_le _).trans ?_
    rw [hunescape _ (zero_notMem_cString _)]
    exact (PercentEncoding.length_decode_le _).trans
      ((length_cString_le _).trans ((length_substr_le _ _ _).trans huri))
  · exact Nat.zero_le _

/-- What precedes the first '/' of a request line, the path behind that one, and what
follows the space behind the query. -/
structure RequestLine where
  front : Bytes
  path : Bytes
  version : Bytes
  front_ok : slash ∉ front ∧ cr ∉ front ∧ lf ∉ front
  path_ok : questionMark ∉ path ∧ space ∉ path ∧ cr ∉ path ∧ lf ∉ path
  version_ok : cr ∉ version ∧ lf ∉ version

/-- The request line with a query. -/
def RequestLine.bytes (line : RequestLine) (query : Bytes) : Bytes :=
  line.front ++ slash :: (line.path ++ questionMark :: (query ++ space :: line.version))

variable {line : RequestLine} {query : Bytes}

theorem RequestLine.cr_notMem
    (hquery : cr ∉ query) :
    cr ∉ line.bytes query := by
  simp only [RequestLine.bytes, List.mem_append, List.mem_cons, not_or]
  exact ⟨line.front_ok.2.1, by decide, line.path_ok.2.2.1, by decide, hquery, by decide,
    line.version_ok.1⟩

/-- The init line. -/
theorem substr_find_lf
    {s : Bytes}
    (hlen : s.length ≤ 2 ^ 63) :
    substr s 0 (find s lf) = before s lf := by
  by_cases hmem : lf ∈ s
  · rw [find_of_mem hmem]
    exact take_length_before s lf
  · have hnpos : npos = 2 ^ 64 - 1 := rfl
    rw [find_eq_npos hmem, substr_of_le (by omega), before_of_notMem hmem]

/-- The uri text is what is behind the first '/', up to the first LF. -/
theorem uriText_append_cons
    {front rest : Bytes}
    (hfront : ∀ b ∈ front, b ≠ slash ∧ b ≠ lf)
    (hlen : (front ++ slash :: rest).length ≤ 2 ^ 63) :
    uriText (front ++ slash :: rest) = before rest lf := by
  have hslash : slash ∉ front := fun hmem => (hfront _ hmem).1 rfl
  have hinit : before (front ++ slash :: rest) lf = front ++ slash :: before rest lf := by
    unfold before
    rw [List.takeWhile_append_of_pos (fun b hb => by simpa using (hfront b hb).2),
      List.takeWhile_cons_of_pos (by decide)]
  have hlength : (before rest lf).length ≤ rest.length := (List.takeWhile_prefix _).length_le
  have hnpos : npos = 2 ^ 64 - 1 := rfl
  rw [List.length_append, List.length_cons] at hlen
  simp only [uriText]
  rw [substr_find_lf (by rw [List.length_append, List.length_cons]; exact hlen), hinit,
    find_append_cons hslash, posAdd_of_lt (by omega), substr_length_succ,
    List.take_of_length_le (by omega)]

/-- The uri text of a request that begins with a request line, up to its CR. -/
theorem uriText_requestLine
    (hlf : lf ∉ query)
    (hlen : (line.bytes query).length < 2 ^ 63) :
    uriText (line.bytes query ++ [cr]) =
      line.path ++ questionMark :: (query ++ space :: (line.version ++ [cr])) := by
  have hsplit : line.bytes query ++ [cr] = line.front ++ slash ::
      (line.path ++ questionMark :: (query ++ space :: (line.version ++ [cr]))) := by
    simp [RequestLine.bytes]
  have hnone : lf ∉ line.path ++ questionMark :: (query ++ space :: (line.version ++ [cr])) := by
    simp only [List.mem_append, List.mem_cons, List.not_mem_nil, or_false, not_or]
    exact ⟨line.path_ok.2.2.2, by decide, hlf, by decide, line.version_ok.2, by decide⟩
  have hlength : (line.bytes query ++ [cr]).length ≤ 2 ^ 63 := by
    rw [List.length_append, List.length_singleton]
    exact hlen
  rw [hsplit] at hlength ⊢
  rw [uriText_append_cons (fun b hb => ⟨?_, ?_⟩) hlength, before_of_notMem hnone]
  · rintro rfl
    exact line.front_ok.1 hb
  · rintro rfl
    exact line.front_ok.2.2 hb

/-- The uri is the path. -/
theorem uriOf_requestLine
    (hlf : lf ∉ query)
    (hlen : (line.bytes query).length < 2 ^ 63) :
    uriOf (line.bytes query ++ [cr]) = line.path := by
  have hshort : line.path.length ≤ (line.bytes query).length := by
    simp only [RequestLine.bytes, List.length_append, List.length_cons]
    omega
  have hnpos : npos = 2 ^ 64 - 1 := rfl
  simp only [uriOf]
  rw [uriText_requestLine hlf hlen, find_append_cons line.path_ok.1, if_neg (by omega),
    substr_zero_append]

/-- The parameter text is the query, unescaped as a whole and read as a C string. -/
theorem paramOf_requestLine
    {unescape : Bytes → Bytes}
    (hunescape : Unescapes unescape)
    (hlf : lf ∉ query)
    (hspace : space ∉ query)
    (hzero : 0 ∉ query)
    (hlen : (line.bytes query).length < 2 ^ 63) :
    paramOf unescape (line.bytes query ++ [cr]) =
      cString (PercentEncoding.decode query) := by
  have hlength : (line.bytes query).length = line.front.length + (line.path.length +
      (query.length + (line.version.length + 1) + 1) + 1) := by
    simp [RequestLine.bytes]
  have hnpos : npos = 2 ^ 64 - 1 := rfl
  have hend : find (line.path ++ questionMark :: (query ++ space :: (line.version ++ [cr])))
      space = line.path.length + 1 + query.length := by
    rw [← List.cons_append, ← List.append_assoc, find_append_cons]
    · simp only [List.length_append, List.length_cons]
      omega
    · simp only [List.mem_append, List.mem_cons, not_or]
      exact ⟨line.path_ok.2.1, by decide, hspace⟩
  simp only [paramOf]
  rw [uriText_requestLine hlf hlen, find_append_cons line.path_ok.1, hend,
    posAdd_of_lt (by omega), posSub_of_le (by omega) (by omega), Nat.add_sub_cancel_left,
    substr_length_succ, List.take_left, cString_of_notMem hzero, hunescape query hzero,
    if_pos (by omega)]

end Target

section Query

/-- The encodings of a list of pairs as a query. -/
inductive EncodesQuery : List (Bytes × Bytes) → Bytes → Prop
  | nil : EncodesQuery [] []
  | single {n v n' v' : Bytes} (hn : PercentEncoding.Encodes n n')
      (hv : PercentEncoding.Encodes v v') :
      EncodesQuery [(n, v)] (n' ++ equalSign :: v')
  | cons {n v n' v' query : Bytes} {p : Bytes × Bytes} {rest : List (Bytes × Bytes)}
      (hn : PercentEncoding.Encodes n n') (hv : PercentEncoding.Encodes v v')
      (hrest : EncodesQuery (p :: rest) query) :
      EncodesQuery ((n, v) :: p :: rest) (n' ++ equalSign :: (v' ++ ampersand :: query))

variable {pairs : List (Bytes × Bytes)} {query : Bytes}

/-- Unescaped as a whole, a query is the pairs joined by '=' and '&'. -/
theorem EncodesQuery.decode
    (h : EncodesQuery pairs query) :
    PercentEncoding.decode query = joinPairs pairs := by
  induction h with
  | nil =>
      rfl
  | single hn hv =>
      have hend := hv.decode_append []
      rw [List.append_nil] at hend
      rw [hn.decode_append, PercentEncoding.decode_cons_of_ne (by decide), hend]
      simp [joinPairs, PercentEncoding.decode]
  | cons hn hv _ ih =>
      rw [hn.decode_append, PercentEncoding.decode_cons_of_ne (by decide), hv.decode_append,
        PercentEncoding.decode_cons_of_ne (by decide), ih]
      rfl

/-- The characters of a query. -/
theorem EncodesQuery.mem
    (h : EncodesQuery pairs query) :
    ∀ b ∈ query, PercentEncoding.isAlnum b = true ∨ b = PercentEncoding.percent ∨
      b = equalSign ∨ b = ampersand := by
  induction h with
  | nil =>
      simp
  | single hn hv =>
      intro b hb
      simp only [List.mem_append, List.mem_cons] at hb
      rcases hb with hb | rfl | hb
      · have h := hn.mem b hb
        tauto
      · tauto
      · have h := hv.mem b hb
        tauto
  | cons hn hv _ ih =>
      intro b hb
      simp only [List.mem_append, List.mem_cons] at hb
      rcases hb with hb | rfl | hb | rfl | hb
      · have h := hn.mem b hb
        tauto
      · tauto
      · have h := hv.mem b hb
        tauto
      · tauto
      · exact ih b hb

theorem EncodesQuery.notMem
    (h : EncodesQuery pairs query) :
    cr ∉ query ∧ lf ∉ query ∧ space ∉ query ∧ 0 ∉ query := by
  refine ⟨?_, ?_, ?_, ?_⟩
  all_goals
    intro hmem
    exact absurd (h.mem _ hmem) (by decide)

/-- The pairs that come back: they have no zero byte, the names have no '=', and only
the last pair has an '&'. -/
def Survives (pairs : List (Bytes × Bytes)) : Prop :=
  (∀ p ∈ pairs, 0 ∉ p.1 ∧ 0 ∉ p.2 ∧ equalSign ∉ p.1) ∧ Separated (pairs.map Prod.fst) pairs

/-- A request line with an encoded query is dispatched with its path and the entries of
the text that the query decodes to. -/
theorem onRecvMsg_requestLine
    {unescape : Bytes → Bytes} {beyond : UInt8} {w : Link} {line : RequestLine} {rest : Bytes}
    (hunescape : Unescapes unescape)
    (hcapacity : w.readBuffer.capacity = Buffer.maxSize)
    (hquery : EncodesQuery pairs query)
    (hunread : w.readBuffer.unread = line.bytes query ++ cr :: lf :: rest) :
    ∃ params, onRecvMsg unescape beyond w =
        some { w with isOpen := false, dispatched := w.dispatched ++ [(line.path, params)] } ∧
      ∀ x, params.lookup x = (fields (cString (joinPairs pairs))).lookup x := by
  obtain ⟨hcr, hlf, hspace, hzero⟩ := hquery.notMem
  have hsize : (line.bytes query).length + (rest.length + 2) = w.readBuffer.size := by
    rw [← Buffer.unread_length, hunread]
    simp
  have hfits := w.readBuffer.size_le_capacity
  have hmax : Buffer.maxSize = 65535 := rfl
  have hlen : (line.bytes query).length < 2 ^ 63 := by
    omega
  have htext : w.readBuffer.unread.take ((line.bytes query).length + 1) =
      line.bytes query ++ [cr] := by
    rw [hunread, List.take_append]
    simp
  have hparam : paramOf unescape (line.bytes query ++ [cr]) = cString (joinPairs pairs) := by
    rw [paramOf_requestLine hunescape hlf hspace hzero hlen, hquery.decode]
  have hshort : (cString (joinPairs pairs)).length < 2 ^ 63 := by
    have hle := length_paramOf_le hunescape (line.bytes query ++ [cr])
    rw [hparam, List.length_append, List.length_singleton] at hle
    omega
  refine ⟨Params.insertAll [] (fields (cString (joinPairs pairs))), ?_, fun x => ?_⟩
  · simp only [onRecvMsg, endOfLine_of_unread (line.cr_notMem hcr) hunread, htext, hparam,
      request_eq hshort, uriOf_requestLine hlf hlen]
  · rw [lookup_insertAll, List.nil_append]

/-- The parameters of a request are the pairs of its query exactly when these survive
the unescaping in front of the division. -/
theorem query_params_iff
    {unescape : Bytes → Bytes} {beyond : UInt8} {w : Link} {line : RequestLine} {rest : Bytes}
    (hunescape : Unescapes unescape)
    (hcapacity : w.readBuffer.capacity = Buffer.maxSize)
    (hdistinct : (pairs.map Prod.fst).Nodup)
    (hquery : EncodesQuery pairs query)
    (hunread : w.readBuffer.unread = line.bytes query ++ cr :: lf :: rest) :
    (∃ w' params, onRecvMsg unescape beyond w = some w' ∧
      w'.dispatched = w.dispatched ++ [(line.path, params)] ∧
      ∀ x, params.lookup x = pairs.lookup x) ↔ Survives pairs := by
  obtain ⟨params, hcall, hparams⟩ :=
    @onRecvMsg_requestLine pairs query unescape beyond w line rest hunescape hcapacity hquery
      hunread
  unfold Survives
  rw [← lookup_fields_join_iff hdistinct]
  constructor
  · rintro ⟨w', params', hcall', hdispatched, hlookup⟩ x
    rw [hcall] at hcall'
    cases hcall'
    have hsame : params = params' := by
      simpa using hdispatched
    rw [← hparams x, hsame, hlookup x]
  · intro h
    exact ⟨_, params, hcall, rfl, fun x => (hparams x).trans (h x)⟩

/-- The line of a GET of "/p". -/
def getLine : RequestLine where
  front := [0x47, 0x45, 0x54, 0x20]
  path := [0x70]
  version := [0x48, 0x54, 0x54, 0x50]
  front_ok := by decide
  path_ok := by decide
  version_ok := by decide

/-- A link whose first read is the request line with a query. -/
def getLink (query : Bytes) : Link :=
  { opened [] with
    readBuffer := received (Buffer.ofData (List.replicate Buffer.maxSize 0))
      (getLine.bytes query ++ [cr, lf]) }

theorem getLink_readBuffer
    (hfits : (getLine.bytes query ++ [cr, lf]).length ≤ Buffer.maxSize) :
    (getLink query).readBuffer.capacity = Buffer.maxSize ∧
      (getLink query).readBuffer.unread = getLine.bytes query ++ cr :: lf :: [] := by
  simp only [getLink]
  exact received_new hfits

/-- "a=1%20&b=%3D". -/
def twoPairs : Bytes :=
  [0x61, 0x3D, 0x31, 0x25, 0x32, 0x30, 0x26, 0x62, 0x3D, 0x25, 0x33, 0x44]

/-- The values "1 " and "=" come back. -/
theorem query_params_iff_twoPairs :
    (∃ w' params, onRecvMsg PercentEncoding.decode 0 (getLink twoPairs) = some w' ∧
      w'.dispatched = (getLink twoPairs).dispatched ++ [(getLine.path, params)] ∧
      ∀ x, params.lookup x = [([0x61], [0x31, space]), ([0x62], [equalSign])].lookup x) ↔
        Survives [([0x61], [0x31, space]), ([0x62], [equalSign])] := by
  have hencodes : EncodesQuery [([0x61], [0x31, space]), ([0x62], [equalSign])] twoPairs :=
    .cons (.literal (by decide) .nil)
      (.literal (by decide)
        (.escaped (h := 2) (l := 0) (by decide) (by decide) (by decide) (by decide) .nil))
      (.single (.literal (by decide) .nil)
        (.escaped (h := 3) (l := 13) (by decide) (by decide) (by decide) (by decide) .nil))
  have hbuffer := @getLink_readBuffer twoPairs (by decide)
  generalize getLink twoPairs = w at hbuffer ⊢
  exact query_params_iff (fun _ _ => rfl) hbuffer.1 (by decide) hencodes hbuffer.2

/-- The value '&' of the name a does not come back. -/
theorem query_params_ampersand :
    ∃ (unescape : Bytes → Bytes) (beyond : UInt8) (w : Link) (line : RequestLine)
      (rest query : Bytes) (pairs : List (Bytes × Bytes)),
      Unescapes unescape ∧ w.readBuffer.capacity = Buffer.maxSize ∧
      (pairs.map Prod.fst).Nodup ∧ (∀ p ∈ pairs, p.1 ≠ []) ∧ EncodesQuery pairs query ∧
      w.readBuffer.unread = line.bytes query ++ cr :: lf :: rest ∧
      ¬ ∃ w' params, onRecvMsg unescape beyond w = some w' ∧
        w'.dispatched = w.dispatched ++ [(line.path, params)] ∧
        ∀ x, params.lookup x = pairs.lookup x := by
  have hencodes : EncodesQuery [([0x61], [ampersand])] [0x61, 0x3D, 0x25, 0x32, 0x36] :=
    .single (.literal (by decide) .nil)
      (.escaped (h := 2) (l := 6) (by decide) (by decide) (by decide) (by decide) .nil)
  have hbuffer := @getLink_readBuffer [0x61, 0x3D, 0x25, 0x32, 0x36] (by decide)
  generalize getLink [0x61, 0x3D, 0x25, 0x32, 0x36] = w at hbuffer
  refine ⟨PercentEncoding.decode, 0, w, getLine, [], _, _, fun _ _ => rfl, hbuffer.1, by decide,
    by decide, hencodes, hbuffer.2, ?_⟩
  rintro ⟨w', params, hcall, hdispatched, hlookup⟩
  obtain ⟨params', hcall', hparams⟩ :=
    @onRecvMsg_requestLine _ _ _ 0 _ _ _ (fun _ _ => rfl) hbuffer.1 hencodes hbuffer.2
  rw [hcall'] at hcall
  cases hcall
  have hsame : params' = params := by
    simpa using hdispatched
  subst hsame
  have hall := (@lookup_fields_join_iff [([0x61], [ampersand])] (by decide)).mp
    fun x => (hparams x).symm.trans (hlookup x)
  rcases hall.2.1 with h | h
  · exact absurd h (by decide)
  · exact h (by decide)

end Query

end Http
end Gamnet
