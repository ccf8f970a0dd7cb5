import Gamnet.Http.LinkManager
import Mathlib.Data.Nat.Find

/-!
# Requests and TCP segmentation

Every read is scanned for itself and the buffer is cleared behind it, so what is
dispatched is the line of the first read in which the scan finds CR LF, with the byte
behind the read counted (`firstLine`).

The byte stream is dispatched as in one read when its first line arrives in one read, from
its first '/' to the CR, when the LF is seen behind this CR, and when no earlier read ends
in a CR behind which the array holds an LF (`InOneRead`). Otherwise another text is
dispatched, or none; it can be one with the same uri and the same parameters
(`asInOneRead_iff`).
-/

namespace Gamnet
namespace Http

open Bytes

/-- The position of the first CR LF in bytes that have one byte behind them. -/
def lineEnd (bytes : Bytes) (behind : UInt8) : Option Nat :=
  (List.range bytes.length).find? fun i =>
    bytes.getD i behind = cr ∧ bytes.getD (i + 1) behind = lf

/-- The line of the first read in which the scan finds CR LF. The array holds what was
read last, and behind it what it held before. -/
def firstLine (beyond : UInt8) : Bytes → List Bytes → Option Bytes
  | _, [] => none
  | data, bytes :: reads =>
      match lineEnd bytes (data.getD bytes.length beyond) with
      | some i => some (bytes.take (i + 1))
      | none => firstLine beyond (bytes ++ data.drop bytes.length) reads

/-- The first line of a stream, up to its CR. -/
def streamLine (stream : Bytes) : Option Bytes :=
  (lineEnd stream 0).map fun i => stream.take (i + 1)

/-- What the array of the read buffer holds behind some reads. -/
def overlay (data : Bytes) (reads : List Bytes) : Bytes :=
  reads.foldl (fun data bytes => bytes ++ data.drop bytes.length) data

/-- Reads that bring the first line of their bytes, which is that of the early reads and
text, up to a CR: no CR LF is in the text, an LF comes behind it, and the scan sees one, in
the read or behind it in the array. No early read ends in a CR with an LF behind it in the
array. The first '/' of the line is in the read, or the line is there from its beginning. -/
structure Brings (beyond : UInt8) (data : Bytes) (early : List Bytes) (text rest : Bytes)
    (late : List Bytes) : Prop where
  unbroken : ∀ i, ¬ (text[i]? = some cr ∧ text[i + 1]? = some lf)
  ended : (rest ++ late.flatten).head? = some lf
  seen : rest = [] → (overlay data early).getD (text.length + 1) beyond = lf
  quiet : ∀ front bytes back, early = front ++ bytes :: back → bytes.getLast? = some cr →
    (overlay data front).getD bytes.length beyond ≠ lf
  whole : early.flatten = [] ∨
    ∃ front target, text = front ++ slash :: target ∧
      ∀ b ∈ early.flatten ++ front, b ≠ slash ∧ b ≠ lf

/-- The first line of the bytes arrives in one read. -/
def InOneRead (beyond : UInt8) (data : Bytes) (reads : List Bytes) : Prop :=
  ∃ early text rest late, reads = early ++ (text ++ cr :: rest) :: late ∧
    Brings beyond data early text rest late

/-- Two lines with the same uri and the same parameters. -/
def SameTarget (unescape : Bytes → Bytes) (text line : Bytes) : Prop :=
  uriOf text = uriOf line ∧
    ∀ x, (fields (paramOf unescape text)).lookup x = (fields (paramOf unescape line)).lookup x

/-- What a line is dispatched as. -/
def dispatchOf (unescape : Bytes → Bytes) (text : Bytes) : Bytes × Params :=
  (uriOf text, Params.insertAll [] (fields (paramOf unescape text)))

/-- The reads in order. -/
abbrev run (unescape : Bytes → Bytes) (beyond : UInt8) : Link → List Bytes → Option Link :=
  Transition.run (asyncRead unescape beyond)

section Reads

variable {unescape : Bytes → Bytes} {beyond : UInt8} {data bytes : Bytes} {reads : List Bytes}

/-- The scan of a read into a cleared buffer. -/
theorem endOfLine_received
    (hfits : bytes.length ≤ data.length) :
    endOfLine beyond (received (Buffer.ofData data) bytes) =
      lineEnd bytes (data.getD bytes.length beyond) := by
  obtain ⟨hunread, hdata, hread⟩ := received_ofData hfits
  have hsize : (received (Buffer.ofData data) bytes).size = bytes.length := by
    rw [← Buffer.unread_length, hunread]
  have hat : ∀ i ≤ bytes.length, byteAt beyond (received (Buffer.ofData data) bytes) i =
      bytes.getD i (data.getD bytes.length beyond) := by
    intro i hi
    rw [byteAt, hdata, hread, Nat.zero_add]
    simp only [List.getD_eq_getElem?_getD]
    rcases Nat.lt_or_eq_of_le hi with hi | rfl
    · rw [List.getElem?_append_left hi, List.getElem?_eq_getElem hi, Option.getD_some,
        Option.getD_some]
    · rw [List.getElem?_append_right (Nat.le_refl _), Nat.sub_self, List.getElem?_drop,
        Nat.add_zero, List.getElem?_eq_none (Nat.le_refl _), Option.getD_none]
  unfold endOfLine lineEnd
  rw [hsize, ← List.head?_filter, ← List.head?_filter]
  refine congrArg List.head? (List.filter_congr ?_)
  intro i hi
  have hlt := List.mem_range.mp hi
  rw [hat i (by omega), hat (i + 1) (by omega)]

/-- What lineEnd finds is the first CR in front of an LF. -/
theorem lineEnd_eq_some_iff
    {behind : UInt8} {i : Nat} :
    lineEnd bytes behind = some i ↔
      (bytes.getD i behind = cr ∧ bytes.getD (i + 1) behind = lf) ∧ i < bytes.length ∧
        ∀ j < i, ¬ (bytes.getD j behind = cr ∧ bytes.getD (j + 1) behind = lf) := by
  unfold lineEnd
  rw [List.find?_range_eq_some]
  simp only [decide_eq_true_eq, List.mem_range, Bool.not_eq_true', decide_eq_false_iff_not]

/-- A read in which the scan finds no line is forgotten. -/
theorem asyncRead_of_none
    {w : Link}
    (hbuffer : w.readBuffer = Buffer.ofData data)
    (hopen : w.isOpen = true)
    (hfits : bytes.length ≤ data.length)
    (hline : lineEnd bytes (data.getD bytes.length beyond) = none) :
    asyncRead unescape beyond w bytes =
      some { w with readBuffer := Buffer.ofData (bytes ++ data.drop bytes.length) } := by
  have hdata := (received_ofData hfits).2.1
  simp only [asyncRead, hopen, if_true, onRecvMsg, hbuffer, endOfLine_received hfits, hline,
    Buffer.clear, hdata]

/-- A read in which the scan finds a line is dispatched, and the link is closed. -/
theorem asyncRead_of_some
    {w : Link} {i : Nat}
    (hunescape : Unescapes unescape)
    (hbuffer : w.readBuffer = Buffer.ofData data)
    (hopen : w.isOpen = true)
    (hfits : bytes.length ≤ data.length)
    (hlen : data.length < 2 ^ 63)
    (hline : lineEnd bytes (data.getD bytes.length beyond) = some i) :
    ∃ w', asyncRead unescape beyond w bytes = some w' ∧ w'.isOpen = false ∧
      w'.dispatched = w.dispatched ++ [dispatchOf unescape (bytes.take (i + 1))] := by
  have hunread := (received_ofData hfits).1
  have hshort : (paramOf unescape (bytes.take (i + 1))).length < 2 ^ 63 := by
    have hle := length_paramOf_le hunescape (bytes.take (i + 1))
    rw [List.length_take] at hle
    omega
  simp only [asyncRead, hopen, if_true, onRecvMsg, hbuffer, endOfLine_received hfits, hline,
    hunread, request_eq hshort]
  exact ⟨_, rfl, rfl, rfl⟩

/-- A closed link reads nothing. -/
theorem run_closed
    {w : Link}
    (hclosed : w.isOpen = false) :
    run unescape beyond w reads = some w := by
  induction reads with
  | nil =>
      rfl
  | cons bytes reads ih =>
      have hread : asyncRead unescape beyond w bytes = some w := by
        simp [asyncRead, hclosed]
      rw [run, Transition.run_cons hread]
      exact ih

/-- The run lemma: the line of the first read that shows one is dispatched, and nothing
else. The induction is on the reads, with what the array holds. -/
theorem run_firstLine
    {w : Link}
    (hunescape : Unescapes unescape)
    (hbuffer : w.readBuffer = Buffer.ofData data)
    (hopen : w.isOpen = true)
    (hlen : data.length < 2 ^ 63)
    (hreads : ∀ bytes ∈ reads, bytes.length ≤ data.length) :
    ∃ w', run unescape beyond w reads = some w' ∧
      w'.dispatched = w.dispatched ++
        ((firstLine beyond data reads).map (dispatchOf unescape)).toList := by
  induction reads generalizing data w with
  | nil =>
      exact ⟨w, rfl, by simp [firstLine]⟩
  | cons bytes reads ih =>
      have hfits := hreads bytes List.mem_cons_self
      rw [firstLine]
      cases hline : lineEnd bytes (data.getD bytes.length beyond) with
      | none =>
          have hlength : (bytes ++ data.drop bytes.length).length = data.length := by
            rw [List.length_append, List.length_drop]
            omega
          obtain ⟨w', hrun, hdispatched⟩ :=
            @ih (bytes ++ data.drop bytes.length)
              { w with readBuffer := Buffer.ofData (bytes ++ data.drop bytes.length) } rfl hopen
              (by omega) (fun b hb => by rw [hlength]; exact hreads b (List.mem_cons_of_mem _ hb))
          refine ⟨w', ?_, hdispatched⟩
          rw [run, Transition.run_cons (asyncRead_of_none hbuffer hopen hfits hline)]
          exact hrun
      | some i =>
          obtain ⟨w', hread, hclosed, hdispatched⟩ :=
            asyncRead_of_some hunescape hbuffer hopen hfits hlen hline
          refine ⟨w', ?_, hdispatched⟩
          rw [run, Transition.run_cons hread]
          exact run_closed hclosed

/-- A CR LF among the bytes, without one in front of it. -/
theorem lineEnd_of_first
    {behind : UInt8} {i : Nat}
    (hcr : bytes[i]? = some cr)
    (hlf : bytes[i + 1]? = some lf)
    (hfirst : ∀ j < i, ¬ (bytes[j]? = some cr ∧ bytes[j + 1]? = some lf)) :
    lineEnd bytes behind = some i := by
  have hlength : i + 1 < bytes.length := (List.getElem?_eq_some_iff.mp hlf).1
  rw [lineEnd_eq_some_iff]
  simp only [List.getD_eq_getElem?_getD]
  refine ⟨⟨by rw [hcr, Option.getD_some], by rw [hlf, Option.getD_some]⟩, by omega, ?_⟩
  rintro j hj ⟨hjcr, hjlf⟩
  rw [List.getElem?_eq_getElem (show j < bytes.length by omega), Option.getD_some] at hjcr
  rw [List.getElem?_eq_getElem (show j + 1 < bytes.length by omega), Option.getD_some] at hjlf
  refine hfirst j hj ⟨?_, ?_⟩
  · rw [List.getElem?_eq_getElem (show j < bytes.length by omega), hjcr]
  · rw [List.getElem?_eq_getElem (show j + 1 < bytes.length by omega), hjlf]

/-- The first line of a stream is that of its first bytes, if it ends among them. -/
theorem lineEnd_take
    {stream : Bytes} {n : Nat}
    (hcrlf : ∃ i, i + 1 < n ∧ stream[i]? = some cr ∧ stream[i + 1]? = some lf)
    (behind : UInt8) :
    ∃ i, lineEnd stream 0 = some i ∧ lineEnd (stream.take n) behind = some i ∧ i + 1 < n := by
  have hexists : ∃ i, stream[i]? = some cr ∧ stream[i + 1]? = some lf := by
    obtain ⟨i, _, h⟩ := hcrlf
    exact ⟨i, h⟩
  obtain ⟨hcr, hlf⟩ := Nat.find_spec hexists
  have hmin := fun j => @Nat.find_min _ _ hexists j
  have hlt : Nat.find hexists + 1 < n := by
    obtain ⟨i, hi, h⟩ := hcrlf
    have hle := Nat.find_min' hexists h
    omega
  generalize Nat.find hexists = i at hcr hlf hmin hlt
  have htake : ∀ k < n, (stream.take n)[k]? = stream[k]? := fun k hk =>
    List.getElem?_take_of_lt hk
  refine ⟨i, lineEnd_of_first hcr hlf (fun j hj => hmin j hj), ?_, hlt⟩
  refine lineEnd_of_first ?_ ?_ ?_
  · rw [htake i (by omega), hcr]
  · rw [htake (i + 1) hlt, hlf]
  · intro j hj
    rw [htake j (by omega), htake (j + 1) (by omega)]
    exact hmin j hj

/-- One read into a zeroed buffer dispatches the first line of the stream. -/
theorem firstLine_one_read
    {stream : Bytes} {n : Nat}
    (hcrlf : ∃ i, i + 1 < n ∧ stream[i]? = some cr ∧ stream[i + 1]? = some lf) :
    ∃ line, streamLine stream = some line ∧ firstLine beyond data [stream.take n] = some line := by
  obtain ⟨i, hstream, htake, hlt⟩ :=
    lineEnd_take hcrlf (data.getD (stream.take n).length beyond)
  refine ⟨stream.take (i + 1), by rw [streamLine, hstream, Option.map_some], ?_⟩
  rw [firstLine, htake]
  simp only [List.take_take, Option.some.injEq]
  rw [Nat.min_eq_left (by omega)]

end Reads

section Segmentations

variable {unescape : Bytes → Bytes} {beyond : UInt8} {data : Bytes} {reads : List Bytes}

/-- What reads into the array of a link dispatch. -/
theorem run_opened
    (hunescape : Unescapes unescape)
    (hdata : data.length = Buffer.maxSize)
    (hreads : ∀ bytes ∈ reads, bytes.length ≤ Buffer.maxSize) :
    ∃ w, run unescape beyond (opened data) reads = some w ∧
      w.dispatched = ((firstLine beyond data reads).map (dispatchOf unescape)).toList := by
  have hmax : Buffer.maxSize = 65535 := rfl
  exact run_firstLine (w := opened data) hunescape rfl rfl (by omega)
    (fun bytes hbytes => by rw [hdata]; exact hreads bytes hbytes)

/-- The reads dispatch what their bytes, from the front of the stream in one read, dispatch
in a zeroed buffer. -/
def AsInOneRead (unescape : Bytes → Bytes) (beyond beyond' : UInt8) (data : Bytes)
    (reads : List Bytes) : Prop :=
  ∃ w w' uri params params',
    run unescape beyond (opened data) reads = some w ∧ w.dispatched = [(uri, params)] ∧
    run unescape beyond' (opened (List.replicate Buffer.maxSize 0))
      [reads.flatten.take Buffer.maxSize] = some w' ∧
    w'.dispatched = [(uri, params')] ∧ ∀ x, params.lookup x = params'.lookup x

/-- A stream with CR LF among its first bytes is dispatched, cut into reads, as in one
read into a zeroed buffer exactly when the first read in which the scan finds CR LF, the
byte behind it counted, has a line with the target of the stream's first line. -/
theorem asInOneRead_iff
    {beyond' : UInt8}
    (hunescape : Unescapes unescape)
    (hdata : data.length = Buffer.maxSize)
    (hreads : ∀ bytes ∈ reads, bytes.length ≤ Buffer.maxSize)
    (hcrlf : ∃ i, i + 1 < Buffer.maxSize ∧ reads.flatten[i]? = some cr ∧
      reads.flatten[i + 1]? = some lf) :
    AsInOneRead unescape beyond beyond' data reads ↔
      ∃ text line, firstLine beyond data reads = some text ∧
        streamLine reads.flatten = some line ∧ SameTarget unescape text line := by
  obtain ⟨line, hline, hone⟩ :=
    @firstLine_one_read beyond' (List.replicate Buffer.maxSize 0) reads.flatten _ hcrlf
  obtain ⟨w₁, hrun₁, hdispatched₁⟩ :=
    @run_opened unescape beyond' (List.replicate Buffer.maxSize 0)
      [reads.flatten.take Buffer.maxSize] hunescape List.length_replicate
      (fun bytes hbytes => by
        rw [List.mem_singleton.mp hbytes]
        exact List.length_take_le _ _)
  obtain ⟨w₂, hrun₂, hdispatched₂⟩ := @run_opened unescape beyond data reads hunescape hdata hreads
  rw [hone, Option.map_some, Option.toList_some] at hdispatched₁
  constructor
  · rintro ⟨w, w', uri, params, params', hrun, hdispatched, hrun', hdispatched', hlookup⟩
    rw [hrun₁] at hrun'
    cases hrun'
    rw [hrun₂] at hrun
    cases hrun
    rw [hdispatched₁] at hdispatched'
    rw [hdispatched₂] at hdispatched
    cases hfirst : firstLine beyond data reads with
    | none =>
        simp [hfirst] at hdispatched
    | some text =>
        simp only [hfirst, Option.map_some, Option.toList_some, dispatchOf, List.cons.injEq,
          Prod.mk.injEq, and_true] at hdispatched hdispatched'
        refine ⟨text, line, rfl, hline, by rw [hdispatched.1, hdispatched'.1], ?_⟩
        intro x
        have hx := hlookup x
        rw [← hdispatched.2, ← hdispatched'.2, lookup_insertAll, lookup_insertAll] at hx
        exact hx
  · rintro ⟨text, line', hfirst, hline', huri, hlookup⟩
    rw [hline] at hline'
    cases hline'
    rw [hfirst, Option.map_some, Option.toList_some] at hdispatched₂
    refine ⟨w₂, w₁, uriOf line, Params.insertAll [] (fields (paramOf unescape text)), _, hrun₂, ?_,
      hrun₁, hdispatched₁, ?_⟩
    · rw [hdispatched₂, dispatchOf, huri]
    · intro x
      rw [lookup_insertAll, lookup_insertAll]
      exact hlookup x

/-- The early reads show no line. -/
theorem firstLine_early
    {early late : List Bytes}
    (hlf : lf ∉ early.flatten)
    (hquiet : ∀ front bytes back, early = front ++ bytes :: back → bytes.getLast? = some cr →
      (overlay data front).getD bytes.length beyond ≠ lf) :
    firstLine beyond data (early ++ late) = firstLine beyond (overlay data early) late := by
  induction early generalizing data with
  | nil =>
      rfl
  | cons bytes early ih =>
      rw [List.flatten_cons, List.mem_append, not_or] at hlf
      have hnone : lineEnd bytes (data.getD bytes.length beyond) = none := by
        rw [Option.eq_none_iff_forall_ne_some]
        intro i hi
        obtain ⟨⟨hcr, hend⟩, hlt, _⟩ := lineEnd_eq_some_iff.mp hi
        simp only [List.getD_eq_getElem?_getD, List.getElem?_eq_getElem hlt,
          Option.getD_some] at hcr hend
        by_cases hlast : i + 1 < bytes.length
        · rw [List.getElem?_eq_getElem hlast, Option.getD_some] at hend
          exact hlf.1 (hend ▸ List.getElem_mem hlast)
        · -- the CR ends the read, and the LF is what the array holds behind it
          have hlength : i + 1 = bytes.length := by
            omega
          rw [hlength, List.getElem?_eq_none (Nat.le_refl _), Option.getD_none] at hend
          refine hquiet [] bytes early rfl ?_ (by
            rw [List.getD_eq_getElem?_getD]
            exact hend)
          rw [List.getLast?_eq_getElem?, ← hlength, Nat.add_sub_cancel,
            List.getElem?_eq_getElem hlt, hcr]
      rw [List.cons_append, firstLine, hnone]
      exact ih hlf.2 fun front b back hsplit =>
        hquiet (bytes :: front) b back (by rw [hsplit, List.cons_append])

/-- The scan finds the end of a line in a read. -/
theorem lineEnd_line
    {text rest : Bytes} {behind : UInt8}
    (hunbroken : ∀ i, ¬ (text[i]? = some cr ∧ text[i + 1]? = some lf))
    (hend : (rest ++ [behind]).head? = some lf) :
    lineEnd (text ++ cr :: rest) behind = some text.length := by
  rw [lineEnd_eq_some_iff]
  simp only [List.getD_eq_getElem?_getD]
  have hcr : (text ++ cr :: rest)[text.length]? = some cr := by
    simp
  have hbehind : (text ++ cr :: rest)[text.length + 1]? = rest.head? := by
    rw [List.getElem?_append_right (by omega), Nat.add_sub_cancel_left, List.getElem?_cons_succ,
      List.head?_eq_getElem?]
  refine ⟨⟨by rw [hcr, Option.getD_some], ?_⟩, by simp, ?_⟩
  · rw [hbehind]
    cases rest with
    | nil =>
        exact Option.some.inj hend
    | cons b rest =>
        exact Option.some.inj hend
  · rintro j hj ⟨hjcr, hjlf⟩
    rw [List.getElem?_append_left hj, List.getElem?_eq_getElem hj, Option.getD_some] at hjcr
    by_cases hlast : j + 1 < text.length
    · rw [List.getElem?_append_left hlast, List.getElem?_eq_getElem hlast,
        Option.getD_some] at hjlf
      exact hunbroken j ⟨by rw [List.getElem?_eq_getElem hj, hjcr],
        by rw [List.getElem?_eq_getElem hlast, hjlf]⟩
    · have hlength : j + 1 = text.length := by
        omega
      rw [hlength, hcr, Option.getD_some] at hjlf
      exact absurd hjlf (by decide)

/-- Bytes without LF in front of a line whose first '/' has no LF in front of it. -/
theorem unbroken_append
    {early front target : Bytes}
    (hunbroken : ∀ i, ¬ ((front ++ slash :: target)[i]? = some cr ∧
      (front ++ slash :: target)[i + 1]? = some lf))
    (hlf : ∀ b ∈ early ++ front, b ≠ lf)
    (i : Nat) :
    ¬ ((early ++ (front ++ slash :: target))[i]? = some cr ∧
      (early ++ (front ++ slash :: target))[i + 1]? = some lf) := by
  rintro ⟨hcr, hend⟩
  by_cases hi : early.length ≤ i
  · rw [List.getElem?_append_right hi] at hcr
    rw [List.getElem?_append_right (by omega),
      show i + 1 - early.length = i - early.length + 1 by omega] at hend
    exact hunbroken _ ⟨hcr, hend⟩
  · rw [← List.append_assoc] at hend
    by_cases hlast : i + 1 < (early ++ front).length
    · rw [List.getElem?_append_left hlast, List.getElem?_eq_getElem hlast] at hend
      exact hlf _ (List.getElem_mem hlast) (Option.some.inj hend)
    · have hlength : i + 1 = (early ++ front).length := by
        rw [List.length_append] at hlast ⊢
        omega
      rw [hlength, List.getElem?_append_right (Nat.le_refl _), Nat.sub_self,
        List.getElem?_cons_zero] at hend
      exact absurd (Option.some.inj hend) (by decide)

variable {early late : List Bytes} {text rest : Bytes}

/-- The early reads have no LF. -/
theorem Brings.lf_notMem
    (h : Brings beyond data early text rest late) :
    lf ∉ early.flatten := by
  rcases h.whole with hnil | ⟨front, target, _, hfront⟩
  · rw [hnil]
    exact List.not_mem_nil
  · exact fun hmem => (hfront _ (List.mem_append_left _ hmem)).2 rfl

/-- The line is the first one of the stream. -/
theorem Brings.streamLine_eq
    (h : Brings beyond data early text rest late) :
    streamLine (early ++ (text ++ cr :: rest) :: late).flatten =
      some (early.flatten ++ text ++ [cr]) := by
  have hunbroken : ∀ i, ¬ ((early.flatten ++ text)[i]? = some cr ∧
      (early.flatten ++ text)[i + 1]? = some lf) := by
    rcases h.whole with hnil | ⟨front, target, rfl, hfront⟩
    · rw [hnil, List.nil_append]
      exact h.unbroken
    · exact unbroken_append h.unbroken fun b hb => (hfront b hb).2
  have hstream : (early ++ (text ++ cr :: rest) :: late).flatten =
      (early.flatten ++ text) ++ cr :: (rest ++ late.flatten) := by
    simp [List.flatten_append]
  have hend : ((rest ++ late.flatten) ++ [0]).head? = some lf := by
    obtain ⟨tail, htail⟩ := List.head?_eq_some_iff.mp h.ended
    rw [htail]
    rfl
  rw [streamLine, hstream, lineEnd_line hunbroken hend, Option.map_some, List.take_append,
    List.take_of_length_le (Nat.le_succ _), Nat.add_sub_cancel_left, List.take_one,
    List.head?_cons, Option.toList_some]

/-- The read shows the line, without the bytes of the early reads. -/
theorem Brings.firstLine_eq
    (h : Brings beyond data early text rest late) :
    firstLine beyond data (early ++ (text ++ cr :: rest) :: late) = some (text ++ [cr]) := by
  have hend : (rest ++ [(overlay data early).getD (text ++ cr :: rest).length beyond]).head? =
      some lf := by
    cases rest with
    | nil =>
        rw [List.length_append, List.length_singleton, h.seen rfl]
        rfl
    | cons b rest =>
        exact h.ended
  rw [firstLine_early h.lf_notMem h.quiet, firstLine, lineEnd_line h.unbroken hend]
  simp [List.take_append]

/-- What is missing in front of the first '/' is not part of the target. -/
theorem Brings.sameTarget
    {unescape : Bytes → Bytes}
    (h : Brings beyond data early text rest late)
    (hlen : (early.flatten ++ text ++ [cr]).length ≤ 2 ^ 63) :
    SameTarget unescape (text ++ [cr]) (early.flatten ++ text ++ [cr]) := by
  have huri : uriText (text ++ [cr]) = uriText (early.flatten ++ text ++ [cr]) := by
    rcases h.whole with hnil | ⟨front, target, rfl, hfront⟩
    · rw [hnil, List.nil_append]
    · have hsplit : early.flatten ++ (front ++ slash :: target) ++ [cr] =
          (early.flatten ++ front) ++ slash :: (target ++ [cr]) := by
        simp
      have hline : front ++ slash :: target ++ [cr] = front ++ slash :: (target ++ [cr]) := by
        simp
      rw [hsplit] at hlen ⊢
      rw [hline, uriText_append_cons hfront hlen,
        uriText_append_cons (fun b hb => hfront b (List.mem_append_right _ hb))]
      simp only [List.length_append] at hlen ⊢
      omega
  refine ⟨?_, fun x => ?_⟩
  · simp only [uriOf, huri]
  · simp only [paramOf, huri]

/-- A stream whose first line arrives in one read, however it is cut elsewhere and whatever
the array held, is dispatched as in one read into a zeroed buffer. -/
theorem segmentation_inOneRead
    {beyond' : UInt8}
    (hunescape : Unescapes unescape)
    (hdata : data.length = Buffer.maxSize)
    (hreads : ∀ bytes ∈ reads, bytes.length ≤ Buffer.maxSize)
    (hcrlf : ∃ i, i + 1 < Buffer.maxSize ∧ reads.flatten[i]? = some cr ∧
      reads.flatten[i + 1]? = some lf)
    (hone : InOneRead beyond data reads) :
    AsInOneRead unescape beyond beyond' data reads := by
  obtain ⟨early, text, rest, late, rfl, hbrings⟩ := hone
  have hline := hbrings.streamLine_eq
  refine (asInOneRead_iff hunescape hdata hreads hcrlf).mpr
    ⟨_, _, hbrings.firstLine_eq, hline, hbrings.sameTarget ?_⟩
  -- the first line ends among the first bytes
  obtain ⟨i, hstream, _, hlt⟩ := lineEnd_take hcrlf 0
  rw [streamLine, hstream, Option.map_some, Option.some.injEq] at hline
  have hmax : Buffer.maxSize = 65535 := rfl
  rw [← hline, List.length_take]
  omega

/-- An array whose previous user left an LF. -/
def staleArray : Bytes :=
  List.replicate 13 0 ++ lf :: List.replicate (Buffer.maxSize - 14) 0

/-- "GET /p?a=%31 H\r\n" in four reads: cut in front of the '/', and between CR and LF, behind
which the stale LF is seen. -/
theorem segmentation_inOneRead_stale :
    AsInOneRead PercentEncoding.decode 0 0 staleArray
      [[0x47], [0x45, 0x54, 0x20],
        [slash, 0x70, questionMark, 0x61, equalSign, 0x25, 0x33, 0x31, space, 0x48, 0x54, 0x54,
          cr],
        [lf, 0x41]] := by
  refine segmentation_inOneRead (fun _ _ => rfl) ?_ (by decide) ⟨16, by decide, rfl, rfl⟩
    ⟨[[0x47], [0x45, 0x54, 0x20]],
      [slash, 0x70, questionMark, 0x61, equalSign, 0x25, 0x33, 0x31, space, 0x48, 0x54, 0x54],
      [], [[lf, 0x41]], rfl, ?_, rfl, fun _ => rfl, ?_, .inr ⟨[], _, rfl, ?_⟩⟩
  · rw [staleArray, List.length_append, List.length_cons, List.length_replicate,
      List.length_replicate]
    rfl
  · rintro i ⟨_, hlf⟩
    exact absurd (List.mem_of_getElem? hlf) (by decide)
  · intro front bytes back hsplit hcr
    have hmem : bytes ∈ [[0x47], [0x45, 0x54, 0x20]] := by
      rw [hsplit]
      exact List.mem_append_right _ List.mem_cons_self
    have hnone : ∀ bytes ∈ ([[0x47], [0x45, 0x54, 0x20]] : List Bytes),
        bytes.getLast? ≠ some cr := by
      decide
    exact absurd hcr (hnone bytes hmem)
  · intro b hb
    have hmem : b ∈ ([0x47, 0x45, 0x54, 0x20] : Bytes) := hb
    simp only [List.mem_cons, List.not_mem_nil, or_false] at hmem
    rcases hmem with rfl | rfl | rfl | rfl <;>
      exact ⟨by decide, by decide⟩

/-- Cut between CR and LF, the same line is not dispatched. -/
theorem segmentation_cut_between :
    ∃ (unescape : Bytes → Bytes) (beyond : UInt8) (data : Bytes) (reads : List Bytes),
      Unescapes unescape ∧ data.length = Buffer.maxSize ∧
      (∀ bytes ∈ reads, bytes.length ≤ Buffer.maxSize) ∧
      (∃ i, i + 1 < Buffer.maxSize ∧ reads.flatten[i]? = some cr ∧
        reads.flatten[i + 1]? = some lf) ∧
      ¬ AsInOneRead unescape beyond beyond data reads := by
  refine ⟨PercentEncoding.decode, 0, List.replicate Buffer.maxSize 0,
    [[0x47, 0x20, 0x2F, 0x70, cr], [lf]], fun _ _ => rfl, List.length_replicate, by decide,
    ⟨4, by decide, rfl, rfl⟩, ?_⟩
  rintro ⟨w, w', uri, params, params', hrun, hdispatched, _⟩
  obtain ⟨w₂, hrun₂, hdispatched₂⟩ :=
    @run_opened PercentEncoding.decode 0 (List.replicate Buffer.maxSize 0)
      [[0x47, 0x20, 0x2F, 0x70, cr], [lf]] (fun _ _ => rfl) List.length_replicate (by decide)
  have hnone : firstLine 0 (List.replicate Buffer.maxSize 0)
      [[0x47, 0x20, 0x2F, 0x70, cr], [lf]] = none := by
    decide
  rw [hrun] at hrun₂
  cases hrun₂
  rw [hnone, hdispatched] at hdispatched₂
  cases hdispatched₂

end Segmentations

end Http
end Gamnet
