import Gamnet.Redis.Decode
import Gamnet.Lib.Transition

/-!
# Replies and segmentation

Every round of the read loop reads up to the end of the first segment with which CR LF
is there, and the loop ends when such a read ends in LF. The words of a reply are those
of all its reads when no read but the last one ends in LF, nothing is left behind the
last one, and the words are put together as they were: where two reads meet, the first
word of the second one begins with a type character exactly when it is a word of its own
(`Unbroken`).

A connection takes one command after the other. What an Execute has not read comes in
front of the next reply (`step`). While every reply is unbroken, every Execute returns
what it returns for its reply in one segment (`run_in_step`).
-/

namespace Gamnet
namespace Redis

/-- The reads of a list of segments. -/
inductive Reads : List Bytes → List Bytes → Prop
  | nil : Reads [] []
  | cons {segments rest reads : List Bytes} {data : Bytes}
      (hread : readUntil [] segments = some (data, rest)) (hrest : Reads rest reads) :
      Reads segments (data :: reads)

/-- A read behind another one has a word, and the first one begins with a type character
exactly when it does not continue the last word of the other read. -/
def Joins (front back : Bytes) : Prop :=
  words back ≠ [] ∧
    (isTyped ((words back).headD []) = true ↔
      ¬ ((∃ c, front.getLast? = some c ∧ isSpace c = false) ∧
        Words.startsWord isSpace back = true))

/-- Every segment is read, only the last read may end in LF, and the reads join. -/
def Unbroken (segments : List Bytes) : Prop :=
  ∃ reads, Reads segments reads ∧ (∀ data ∈ reads.dropLast, data.getLast? ≠ some lf) ∧
    reads.IsChain Joins

section Rounds

variable {segments rest tokens : List Bytes} {text token data : Bytes}

/-- A read is not empty, takes a segment, and leaves the other ones. -/
theorem readUntil_spec
    (hread : readUntil text segments = some (data, rest)) :
    data ++ rest.flatten = text ++ segments.flatten ∧
      (hasCrLf text = false → rest.length < segments.length) ∧ hasCrLf data = true := by
  induction segments generalizing text with
  | nil =>
      rw [readUntil] at hread
      split at hread
      · rename_i hline
        cases hread
        exact ⟨rfl, fun h => absurd hline (by simp [h]), hline⟩
      · cases hread
  | cons s segments ih =>
      rw [readUntil] at hread
      split at hread
      · rename_i hline
        cases hread
        exact ⟨rfl, fun h => absurd hline (by simp [h]), hline⟩
      · obtain ⟨hbytes, hlength, hline⟩ := ih hread
        refine ⟨by rw [hbytes, List.flatten_cons, List.append_assoc], fun _ => ?_, hline⟩
        rw [List.length_cons]
        cases hmore : hasCrLf (text ++ s) with
        | false =>
            have hlt := hlength hmore
            omega
        | true =>
            cases segments with
            | nil =>
                rw [readUntil, if_pos hmore] at hread
                cases hread
                simp
            | cons s' segments =>
                rw [readUntil, if_pos hmore] at hread
                cases hread
                simp

theorem Reads.flatten
    {reads : List Bytes}
    (h : Reads segments reads) :
    reads.flatten = segments.flatten := by
  induction h with
  | nil =>
      rfl
  | cons hread _ ih =>
      rw [List.flatten_cons, ih]
      exact (readUntil_spec hread).1

/-- Words of a text that was cut off behind its last word, and of the read behind it. -/
theorem foldl_addWord_joins
    {front : Bytes}
    (htext : words text = tokens ++ [token])
    (hne : text ≠ [])
    (hlast : front.getLast? = text.getLast?)
    (hjoins : Joins front data) :
    (words data).foldl addWord (tokens, token) = (words (text ++ data), []) := by
  obtain ⟨hwords, htyped⟩ := hjoins
  have htoken : token ≠ [] :=
    (Words.of_mem_words (show token ∈ words text by rw [htext]; simp)).1
  have hgetLast := List.getLast?_eq_some_getLast hne
  obtain ⟨w, ws, hws⟩ := List.exists_cons_of_ne_nil hwords
  rw [hws, List.headD_cons] at htyped
  rw [hws, List.foldl_cons]
  by_cases hw : isTyped w = true
  · have hadd : addWord (tokens, token) w = (tokens ++ [token] ++ [w], []) := by
      simp [addWord, hw, htoken]
    rw [hadd, foldl_addWord, ← htext]
    congr 1
    have hcut := htyped.mp hw
    rw [hlast, hgetLast] at hcut
    have hsplit : words (text ++ data) = words text ++ words data := by
      by_cases hspace : isSpace (text.getLast hne) = true
      · exact Words.words_append_of_last_space hne hspace
      · refine Words.words_append ?_
        by_contra hstart
        exact hcut ⟨⟨_, rfl, by simpa using hspace⟩, by simpa using hstart⟩
    rw [hsplit, hws, List.append_assoc, List.singleton_append]
  · have hadd : addWord (tokens, token) w = (tokens ++ [token ++ w], []) := by
      simp [addWord, hw]
    rw [hadd, foldl_addWord]
    congr 1
    have hcut := not_not.mp (fun h => hw (htyped.mpr h))
    rw [hlast, hgetLast] at hcut
    obtain ⟨⟨c, hc, hspace⟩, hstart⟩ := hcut
    cases hc
    rw [words, Words.words_append_of_cut hne hspace hstart htext hws, List.append_assoc,
      List.singleton_append]

/-- A text with CR LF is not empty. -/
theorem ne_nil_of_hasCrLf
    (hline : hasCrLf data = true) :
    data ≠ [] := by
  rintro rfl
  cases hline

/-- One round of the read loop. -/
theorem readRound_eq
    {ws : List Bytes}
    (hread : readUntil [] segments = some (data, rest))
    (hfold : (words data).foldl addWord (tokens, token) = (ws, []))
    (hws : ws ≠ []) :
    readRound ⟨tokens, token, segments⟩ =
      if data.getLast? = some lf then .inr (some (ws, rest))
      else .inl ⟨ws.dropLast, ws.getLast hws, rest⟩ := by
  simp only [readRound, hread, hfold, hws, if_false]
  rw [List.getLastD_eq_getLast?, List.getLast?_eq_some_getLast hws, Option.getD_some]

/-- The loop over reads of which only the last one ends in LF and that join gives the
words of all bytes. The induction is on the reads. -/
theorem run_reads
    {reads : List Bytes} {n : Nat}
    (hreads : Reads segments (data :: reads))
    (hfold : (words data).foldl addWord (tokens, token) = (words (text ++ data), []))
    (hwords : words (text ++ data) ≠ [])
    (hfront : ∀ d ∈ (data :: reads).dropLast, d.getLast? ≠ some lf)
    (hlast : ((data :: reads).flatten).getLast? = some lf)
    (hjoins : (data :: reads).IsChain Joins)
    (hn : segments.length < n) :
    WhileLoop.run readRound n ⟨tokens, token, segments⟩ =
      some (some (words (text ++ (data :: reads).flatten), [])) := by
  induction reads generalizing segments text tokens token data n with
  | nil =>
      cases hreads with
      | cons hread hrest =>
          cases hrest
          have hend : data.getLast? = some lf := by simpa using hlast
          have hround := readRound_eq hread hfold hwords
          rw [if_pos hend] at hround
          cases n with
          | zero => omega
          | succ n =>
              rw [WhileLoop.run_done hround, List.flatten_cons, List.flatten_nil, List.append_nil]
  | cons next reads ih =>
      cases hreads with
      | cons hread hrest =>
          obtain ⟨_, hlength, hline⟩ := readUntil_spec hread
          have hend : data.getLast? ≠ some lf := hfront data (by simp)
          have hround := readRound_eq hread hfold hwords
          rw [if_neg hend] at hround
          have hne := ne_nil_of_hasCrLf hline
          have hsame : data.getLast? = (text ++ data).getLast? := by
            rw [List.getLast?_append_of_ne_nil _ hne]
          rw [List.isChain_cons_cons] at hjoins
          have hnext := foldl_addWord_joins (List.dropLast_append_getLast hwords).symm
            (List.append_ne_nil_of_right_ne_nil _ hne) hsame hjoins.1
          have hlast' : ((next :: reads).flatten).getLast? = some lf := by
            cases hrest with
            | cons hread' _ =>
                have hne' := ne_nil_of_hasCrLf (readUntil_spec hread').2.2
                have hflat : (next :: reads).flatten ≠ [] := by
                  simp [hne']
                rw [List.flatten_cons, List.getLast?_append_of_ne_nil _ hflat] at hlast
                exact hlast
          have hrest' := ih hrest hnext (Words.words_append_ne_nil hwords)
            (fun d hd => hfront d (by simp [hd])) hlast' hjoins.2 (n := n - 1)
            (by have := hlength rfl; omega)
          cases n with
          | zero => omega
          | succ n =>
              rw [WhileLoop.run_continue hround]
              rw [Nat.add_sub_cancel, List.append_assoc] at hrest'
              exact hrest'

end Rounds

section Executes

variable {segments : List Bytes} {text : Bytes}

/-- Segments of a text that begins with a word and ends in CR LF, unbroken, have the
result of the text in one segment. -/
theorem execute_of_unbroken
    (hunbroken : Unbroken segments)
    (hbytes : segments.flatten = text ++ crlf)
    (hstart : Words.startsWord isSpace (text ++ crlf) = true) :
    execute segments = execute [text ++ crlf] := by
  obtain ⟨reads, hreads, hfront, hjoins⟩ := hunbroken
  have hflatten := hreads.flatten.trans hbytes
  cases reads with
  | nil =>
      simp [crlf] at hflatten
  | cons data reads =>
      have hlast : ((data :: reads).flatten).getLast? = some lf := by
        rw [hflatten]
        simp [crlf]
      have hdata : words data ≠ [] := by
        cases hreads with
        | cons hread _ =>
            have hne := ne_nil_of_hasCrLf (readUntil_spec hread).2.2
            obtain ⟨c, s, rfl⟩ := List.exists_cons_of_ne_nil hne
            refine Words.words_ne_nil_of_startsWord ?_
            rw [← hflatten] at hstart
            exact hstart
      have hrun : WhileLoop.run readRound (segments.length + 1) ⟨[], [], segments⟩ =
          some (some (words ([] ++ (data :: reads).flatten), [])) :=
        run_reads hreads (foldl_addWord [] (words data)) hdata hfront hlast hjoins
          (Nat.lt_succ_self _)
      have hone := execute_segment (Words.words_ne_nil_of_startsWord hstart) []
      rw [hone, execute, hrun, hflatten, List.nil_append]
      cases hscan : finishScan ⟨0, false, ResultSetImpl.empty⟩ (words (text ++ crlf)) <;>
        simp only [parseAll_eq (Nat.le_refl _), hscan]

/-- A reply begins with a type character. -/
theorem startsWord_bytesOf
    {items : List Item}
    (hitems : items ≠ []) :
    Words.startsWord isSpace (bytesOf items) = true := by
  obtain ⟨item, items, rfl⟩ := List.exists_cons_of_ne_nil hitems
  cases item <;> rfl

/-- An unbroken reply has the result of the reply in one segment, and nothing is left of
it. -/
theorem execute_reply
    {r : Reply}
    (hunbroken : Unbroken segments)
    (hbytes : segments.flatten = r.bytes) :
    execute segments = execute [r.bytes] ∧
      ∀ impl rest, execute segments = .returns impl rest → rest = [] := by
  obtain ⟨text, htext⟩ := exists_bytesOf r.items_ne_nil
  have hstart := startsWord_bytesOf r.items_ne_nil
  rw [Reply.bytes, htext] at hbytes ⊢
  rw [htext] at hstart
  have hsame := execute_of_unbroken hunbroken hbytes hstart
  refine ⟨hsame, ?_⟩
  intro impl rest hreturns
  rw [hsame, execute_segment (Words.words_ne_nil_of_startsWord hstart)] at hreturns
  cases hfinish : finishScan ⟨0, false, ResultSetImpl.empty⟩ (words (text ++ crlf)) with
  | none =>
      rw [hfinish] at hreturns
      cases hreturns
  | some result =>
      rw [hfinish] at hreturns
      cases hreturns
      rfl

end Executes

section Commands

/-- What a caller gets from an Execute. -/
inductive Answer
  | waits
  | undefined
  | resultSet (impl : ResultSetImpl)

/-- What a caller gets. -/
def Execution.answer : Execution → Answer
  | .waits => .waits
  | .undefined => .undefined
  | .returns impl _ => .resultSet impl

/-- A connection: the bytes that are sent and not read, while every Execute has returned,
and what the callers got. -/
structure Conversation where
  unread : Option Bytes
  answers : List Answer

/-- A connection as it is opened. -/
def Conversation.opened : Conversation where
  unread := some []
  answers := []

/-- A command is executed: its reply comes behind the bytes that are not read, in any
segments, and not before the command is sent. -/
def step (c : Conversation) (e : Reply × List Bytes) : Option Conversation :=
  match c.unread with
  | none => none
  | some unread =>
      if e.2.flatten = unread ++ e.1.bytes then
        match execute e.2 with
        | .returns impl rest => some ⟨some rest.flatten, c.answers ++ [.resultSet impl]⟩
        | .waits => some ⟨none, c.answers ++ [.waits]⟩
        | .undefined => some ⟨none, c.answers ++ [.undefined]⟩
      else none

/-- The commands in order. -/
abbrev run : Conversation → List (Reply × List Bytes) → Option Conversation :=
  Transition.run step

/-- The answer to a reply in one segment. -/
def answerOf (r : Reply) : Answer :=
  (execute [r.bytes]).answer

variable {c c' : Conversation} {e : Reply × List Bytes} {commands : List (Reply × List Bytes)}

/-- The step lemma: an unbroken reply on a connection of which everything is read is
answered as in one segment, and everything is read again if the Execute returns. -/
theorem step_in_step
    (hunread : c.unread = some [])
    (hunbroken : Unbroken e.2)
    (hstep : step c e = some c') :
    c'.answers = c.answers ++ [answerOf e.1] ∧ (c'.unread = some [] ∨ c'.unread = none) := by
  unfold step at hstep
  rw [hunread] at hstep
  simp only [List.nil_append] at hstep
  split at hstep
  · rename_i hbytes
    obtain ⟨hsame, hrest⟩ := execute_reply hunbroken hbytes
    have hanswer : answerOf e.1 = (execute e.2).answer := by
      rw [hsame]
      rfl
    rw [hanswer]
    cases hexecute : execute e.2 with
    | waits =>
        rw [hexecute] at hstep
        cases hstep
        exact ⟨rfl, Or.inr rfl⟩
    | undefined =>
        rw [hexecute] at hstep
        cases hstep
        exact ⟨rfl, Or.inr rfl⟩
    | returns impl rest =>
        rw [hexecute] at hstep
        cases hstep
        obtain rfl := hrest impl rest hexecute
        exact ⟨rfl, Or.inl rfl⟩
  · cases hstep

/-- While every reply comes unbroken, every Execute returns what it returns for its reply
in one segment. -/
theorem run_in_step
    (hrun : run Conversation.opened commands = some c)
    (hunbroken : ∀ e ∈ commands, Unbroken e.2) :
    c.answers = commands.map fun e => answerOf e.1 := by
  have hgeneral : ∀ (commands : List (Reply × List Bytes)) (d : Conversation),
      d.unread = some [] → run d commands = some c → (∀ e ∈ commands, Unbroken e.2) →
      c.answers = d.answers ++ commands.map fun e => answerOf e.1 := by
    intro commands
    induction commands with
    | nil =>
        intro d _ hrun _
        cases hrun
        simp
    | cons e commands ih =>
        intro d hunread hrun hunbroken
        obtain ⟨d', hstep, hrest⟩ := Transition.exists_of_run_cons hrun
        obtain ⟨hanswers, hunread'⟩ := step_in_step hunread (hunbroken e List.mem_cons_self) hstep
        rcases hunread' with hunread' | hunread'
        · rw [ih d' hunread' hrest fun e he => hunbroken e (List.mem_cons_of_mem _ he), hanswers,
            List.map_cons, List.append_assoc, List.singleton_append]
        · cases commands with
          | nil =>
              cases hrest
              rw [hanswers]
              rfl
          | cons e' commands =>
              obtain ⟨d'', hstep', _⟩ := Transition.exists_of_run_cons hrest
              simp [step, hunread'] at hstep'
  have hall := hgeneral commands Conversation.opened rfl hrun hunbroken
  rwa [Conversation.opened, List.nil_append] at hall

/-- An array of one simple string, cut within the string. -/
theorem run_in_step_cut :
    ∃ c, run Conversation.opened
        [(.array [.simple ⟨[0x61, 0x62], by decide⟩],
          [[star, 0x31, cr, lf, plus, 0x61], [0x62, cr, lf]])] = some c ∧
      c.answers = [answerOf (.array [.simple ⟨[0x61, 0x62], by decide⟩])] := by
  have hrun : run Conversation.opened
      [(.array [.simple ⟨[0x61, 0x62], by decide⟩],
        [[star, 0x31, cr, lf, plus, 0x61], [0x62, cr, lf]])] = some _ := rfl
  refine ⟨_, hrun, run_in_step hrun ?_⟩
  intro e he
  obtain rfl := List.mem_singleton.mp he
  refine ⟨[[star, 0x31, cr, lf, plus, 0x61], [0x62, cr, lf]], .cons rfl (.cons rfl .nil), ?_, ?_⟩
  · decide
  · rw [List.isChain_cons_cons]
    refine ⟨⟨by decide, ?_⟩, List.IsChain.singleton _⟩
    exact iff_of_false (by decide) (fun h => h ⟨⟨_, rfl, by decide⟩, by decide⟩)

/-- An array of an error and a simple string, cut between the two: the first Execute does
not return the string, and the second one returns it for its own reply. -/
theorem run_out_of_step :
    ∃ (commands : List (Reply × List Bytes)) (c : Conversation),
      (∀ e ∈ commands, ∀ item ∈ e.1.items, item ≠ .null ∧
        ∀ s, item = .bulk s → Words.NoSpace isSpace s) ∧
      run Conversation.opened commands = some c ∧
      c.answers ≠ commands.map fun e => answerOf e.1 := by
  refine ⟨[(.array [.error ⟨[0x45, 0x20, 0x78], by decide⟩, .simple ⟨[0x61], by decide⟩],
      [[star, 0x32, cr, lf, minus, 0x45, 0x20, 0x78, cr, lf], [plus, 0x61, cr, lf]]),
    (.simple ⟨[0x62], by decide⟩, [[plus, 0x61, cr, lf], [plus, 0x62, cr, lf]])],
    ⟨some [plus, 0x62, cr, lf], [.resultSet ⟨[], [minus, 0x45, 0x20, 0x78]⟩,
      .resultSet ⟨[[0x61]], []⟩]⟩, ?_, rfl, ?_⟩
  · intro e he
    simp only [List.mem_cons, List.not_mem_nil, or_false] at he
    rcases he with rfl | rfl
    all_goals
      intro item hitem
      simp only [Reply.items, itemsOf, List.length_cons, List.length_nil, List.cons_append,
        List.nil_append, List.append_nil, List.mem_cons, List.not_mem_nil, or_false] at hitem
    · rcases hitem with rfl | rfl | rfl <;> simp
    · rcases hitem with rfl
      simp
  · intro h
    have hfirst := (List.cons.inj h).1
    have hanswer : answerOf (.array [.error ⟨[0x45, 0x20, 0x78], by decide⟩,
        .simple ⟨[0x61], by decide⟩]) =
        .resultSet ⟨[[0x61]], [minus, 0x45, 0x20, 0x78]⟩ := rfl
    exact absurd (hfirst.trans hanswer) (by simp)

end Commands

end Redis
end Gamnet
