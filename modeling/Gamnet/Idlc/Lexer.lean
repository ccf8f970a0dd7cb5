import Gamnet.Idlc.Emission
import Gamnet.Lib.MaximalMunch
import Mathlib.Data.List.TakeWhile

/-!
# The lexer

The scanner that flex makes of lexer.l: at each position the rule that matches the most
characters is taken, and a character that no rule matches is passed over. The rule for white
space stands in quotes, so that blanks are such characters.

`Renders` says how tokens can be written: their texts one behind the other, with characters that
begin no token between them, where a text ends if the one behind it cannot continue it. The
lexer returns some tokens if and only if they are what is written (`lex_eq_iff`). In particular
it accepts every text, in one way.
-/

namespace Gamnet
namespace Idlc

open Emission (Text VarName isVarName isVarNameStart isVarNameRest)

/-- The tokens that the lexer returns. The token of a primitive type is that of its keyword. -/
inductive Terminal
  | varname (name : VarName)
  | integer (text : Text)
  | literal (context : Text)
  | language (text : Text)
  | message
  | struct
  | typedef
  | enum
  | comment
  | openBrace
  | closeBrace
  | openBracket
  | closeBracket
  | less
  | more
  | equal
  | colon
  | semiColon
  | comma
  | openParenthesis
  | closeParenthesis
  | primitive (type : PrimitiveType)
  | string
  | array
  | list
  | map

namespace Lexer

/-- What a rule does with the text that it matches. -/
inductive Action
  | token (terminal : Text → Option Terminal)
  | skip
  | beginComment
  | beginLiteral

/-- A rule of the initial state: how many characters it matches at the front of a text, and its
action. -/
structure Rule where
  length : Text → Nat
  action : Action

/-- The length of a text in quotes, if it is at the front. -/
def prefixLength (w text : Text) : Nat :=
  if w.isPrefixOf text then w.length else 0

/-- {line_comment}.* -/
def lineCommentLength : Text → Nat
  | '/' :: '/' :: text => (text.takeWhile (· ≠ '\n')).length + 2
  | _ => 0

def languages : List Text :=
  [['.', 'c', 'p', 'p'], ['.', 'p', 'y'], ['.', 'j', 'a', 'v', 'a'], ['.', 'c', 's']]

/-- {language} -/
def languageLength (text : Text) : Nat :=
  (languages.map fun w => prefixLength w text).foldl max 0

/-- The rules for keywords, in their order. -/
def keywords : List (Text × Terminal) :=
  [(['m', 'e', 's', 's', 'a', 'g', 'e'], .message),
    (['s', 't', 'r', 'u', 'c', 't'], .struct),
    (['e', 'n', 'u', 'm'], .enum),
    (['b', 'o', 'o', 'l', 'e', 'a', 'n'], .primitive .boolean),
    (['u', 'b', 'y', 't', 'e'], .primitive .ubyte),
    (['b', 'y', 't', 'e'], .primitive .byte),
    (['i', 'n', 't', '1', '6'], .primitive .int16),
    (['i', 'n', 't', '3', '2'], .primitive .int32),
    (['i', 'n', 't', '6', '4'], .primitive .int64),
    (['u', 'i', 'n', 't', '1', '6'], .primitive .uint16),
    (['u', 'i', 'n', 't', '3', '2'], .primitive .uint32),
    (['u', 'i', 'n', 't', '6', '4'], .primitive .uint64),
    (['d', 'o', 'u', 'b', 'l', 'e'], .primitive .double),
    (['f', 'l', 'o', 'a', 't'], .primitive .float),
    (['s', 't', 'r', 'i', 'n', 'g'], .string),
    (['m', 'a', 'p'], .map),
    (['a', 'r', 'r', 'a', 'y'], .array),
    (['l', 'i', 's', 't'], .list),
    (['t', 'y', 'p', 'e', 'd', 'e', 'f'], .typedef)]

/-- The rules for single characters, in their order. -/
def punctuation : List (Char × Terminal) :=
  [('{', .openBrace), ('}', .closeBrace), ('[', .openBracket), (']', .closeBracket),
    ('(', .openParenthesis), (')', .closeParenthesis), (';', .semiColon), (':', .colon),
    (',', .comma), ('<', .less), ('>', .more), ('=', .equal)]

/-- {integer} -/
def integerLength (text : Text) : Nat :=
  max (text.takeWhile Char.isDigit).length
    (match text with
    | '0' :: 'x' :: text => (text.takeWhile Char.isHexDigit).length + 2
    | _ => 0)

/-- {varname} -/
def varnameLength : Text → Nat
  | [] => 0
  | c :: text => if isVarNameStart c then (text.takeWhile isVarNameRest).length + 1 else 0

/-- {whitespace}+, the definition of which is a text in quotes. -/
def whitespaceLength : Text → Nat
  | '[' :: ' ' :: '\t' :: '\n' :: '\r' :: ']' :: text => whitespaceLength text + 6
  | _ => 0

/-- The token of a VARNAME. -/
def varname (text : Text) : Option Terminal :=
  if h : isVarName text = true then some (.varname ⟨text, h⟩) else none

/-- The rules in front of those for keywords. -/
def openRules : List Rule :=
  [⟨prefixLength ['/', '*'], .beginComment⟩,
    ⟨lineCommentLength, .token fun _ => some .comment⟩,
    ⟨prefixLength ['%', '%'], .beginLiteral⟩,
    ⟨languageLength, .token fun text => some (.language text)⟩]

def keywordRule (k : Text × Terminal) : Rule :=
  ⟨prefixLength k.1, .token fun _ => some k.2⟩

def punctuationRule (p : Char × Terminal) : Rule :=
  ⟨prefixLength [p.1], .token fun _ => some p.2⟩

def integerRule : Rule :=
  ⟨integerLength, .token fun text => some (.integer text)⟩

def varnameRule : Rule :=
  ⟨varnameLength, .token varname⟩

def whitespaceRule : Rule :=
  ⟨whitespaceLength, .skip⟩

def newlineRule : Rule :=
  ⟨prefixLength ['\n'], .skip⟩

/-- The rules of the initial state, in their order. -/
def rules : List Rule :=
  openRules ++ (keywords.map keywordRule ++ (punctuation.map punctuationRule ++
    [integerRule, varnameRule, whitespaceRule, newlineRule]))

/-- The start states, that of a literal with g_sBuf. -/
inductive State
  | initial
  | comment
  | literal (sBuf : Text)

/-- What a rule matches at the front of a text. -/
def Rule.matched (text : Text) (r : Rule) : Action × Nat :=
  (r.action, r.length text)

/-- The action of the rule that is taken. A character that no rule matches is echoed. -/
def act (text : Text) : Option (Action × Nat) → Nat × State × Option Terminal
  | some (.token terminal, n) => (n, .initial, terminal (text.take n))
  | some (.skip, n) => (n, .initial, none)
  | some (.beginComment, n) => (n, .comment, none)
  | some (.beginLiteral, n) => (n, .literal [], none)
  | none => (1, .initial, none)

/-- One match in a comment. -/
def commentStep (text : Text) : Nat × State × Option Terminal :=
  if ['*', '/'].isPrefixOf text then (2, .initial, some .comment) else (1, .comment, none)

/-- One match in a literal block. The text of the token ends at a zero byte. -/
def literalStep (sBuf text : Text) : Nat × State × Option Terminal :=
  if ['%', '%'].isPrefixOf text then
    (2, .initial, some (.literal (sBuf.takeWhile (· ≠ '\x00'))))
  else
    (1, .literal (sBuf ++ text.take 1), none)

/-- One match. -/
def step : State → Text → Nat × State × Option Terminal
  | .initial, text => act text (MaximalMunch.longest (rules.map (Rule.matched text)))
  | .comment, text => commentStep text
  | .literal sBuf, text => literalStep sBuf text

/-- The calls of yylex on a text. -/
def lex (text : Text) : List Terminal :=
  MaximalMunch.scan step 0 .initial text

/-- The text behind does not begin with a character of this kind. -/
def Stops (p : Char → Bool) (rest : Text) : Prop :=
  ∀ c ∈ rest.head?, p c = false

/-- A text that is a token if the rest is behind it. -/
inductive Spells : Terminal → Text → Text → Prop
  | keyword {w : Text} {t : Terminal} {rest : Text}
      (hmem : (w, t) ∈ keywords)
      (hrest : Stops isVarNameRest rest) :
      Spells t w rest
  | varname (name : VarName) {rest : Text}
      (hmem : name.text ∉ keywords.map Prod.fst)
      (hrest : Stops isVarNameRest rest) :
      Spells (.varname name) name.text rest
  | decimal {digits rest : Text}
      (hne : digits ≠ [])
      (hdigits : digits.all Char.isDigit = true)
      (hrest : Stops Char.isDigit rest)
      (hhex : digits = ['0'] → rest.head? ≠ some 'x') :
      Spells (.integer digits) digits rest
  | hexadecimal {digits rest : Text}
      (hdigits : digits.all Char.isHexDigit = true)
      (hrest : Stops Char.isHexDigit rest) :
      Spells (.integer ('0' :: 'x' :: digits)) ('0' :: 'x' :: digits) rest
  | language {w rest : Text}
      (hmem : w ∈ languages) :
      Spells (.language w) w rest
  | punctuation {c : Char} {t : Terminal} {rest : Text}
      (hmem : (c, t) ∈ punctuation)
      (hspace : whitespaceLength (c :: rest) = 0) :
      Spells t [c] rest
  | comment {body rest : Text}
      (hbody : MaximalMunch.avoids ['*', '/'] body = true) :
      Spells .comment ('/' :: '*' :: (body ++ ['*', '/'])) rest
  | lineComment {body rest : Text}
      (hbody : '\n' ∉ body)
      (hrest : Stops (· ≠ '\n') rest) :
      Spells .comment ('/' :: '/' :: body) rest
  | literal {body rest : Text}
      (hbody : MaximalMunch.avoids ['%', '%'] body = true) :
      Spells (.literal (body.takeWhile (· ≠ '\x00'))) ('%' :: '%' :: (body ++ ['%', '%'])) rest

/-- What comments, literals and languages begin with. -/
def opens : List Text :=
  ['/', '*'] :: ['/', '/'] :: ['%', '%'] :: languages

/-- No token and no comment begins with the character. -/
structure Blank (c : Char) (rest : Text) : Prop where
  start : isVarNameStart c = false
  digit : c.isDigit = false
  punctuation : c ∉ punctuation.map Prod.fst
  opens : ∀ w ∈ opens, ¬ w <+: c :: rest

/-- The text that the rule for white space matches. -/
def whitespace : Text := ['[', ' ', '\t', '\n', '\r', ']']

/-- The ways to write some tokens. -/
inductive Renders : List Terminal → Text → Prop
  | nil : Renders [] []
  | blank {ts : List Terminal} {c : Char} {rest : Text}
      (hblank : Blank c rest)
      (hrest : Renders ts rest) :
      Renders ts (c :: rest)
  | whitespace {ts : List Terminal} {rest : Text}
      (hrest : Renders ts rest) :
      Renders ts (whitespace ++ rest)
  | token {t : Terminal} {ts : List Terminal} {w rest : Text}
      (hw : Spells t w rest)
      (hrest : Renders ts rest) :
      Renders (t :: ts) (w ++ rest)
  | openComment {body : Text}
      (hbody : ¬ ['*', '/'] <:+: body) :
      Renders [] ('/' :: '*' :: body)
  | openLiteral {body : Text}
      (hbody : ¬ ['%', '%'] <:+: body) :
      Renders [] ('%' :: '%' :: body)

section Lengths

variable {c : Char} {w rest text : Text}

/-- The longest run of characters ends where the next one is of another kind. -/
theorem takeWhile_of_stops
    {p : Char → Bool}
    (hw : w.all p = true)
    (hrest : Stops p rest) :
    (w ++ rest).takeWhile p = w := by
  rw [List.takeWhile_append_of_pos (List.all_eq_true.mp hw)]
  cases rest with
  | nil =>
      simp
  | cons c rest =>
      have hc : p c = false := hrest c rfl
      simp [hc]

theorem prefixLength_append
    (w rest : Text) :
    prefixLength w (w ++ rest) = w.length :=
  if_pos (List.isPrefixOf_iff_prefix.mpr (List.prefix_append w rest))

/-- A rule for a fixed text matches nothing else. -/
theorem prefixLength_eq_zero
    (h : ¬ w <+: text) :
    prefixLength w text = 0 :=
  if_neg fun hprefix => h (List.isPrefixOf_iff_prefix.mp hprefix)

theorem lineCommentLength_eq_zero
    (h : ¬ ['/', '/'] <+: text) :
    lineCommentLength text = 0 := by
  unfold lineCommentLength
  split
  · rename_i text
    exact absurd ⟨text, rfl⟩ h
  · rfl

theorem languageLength_eq_zero
    (h : ∀ w ∈ languages, ¬ w <+: text) :
    languageLength text = 0 := by
  have hzero : languages.map (fun w => prefixLength w text) = languages.map fun _ => 0 :=
    List.map_congr_left fun w hw => prefixLength_eq_zero (h w hw)
  rw [languageLength, hzero]
  rfl

/-- None of the first rules matches. -/
theorem openRules_length
    (h : ∀ w ∈ opens, ¬ w <+: text) :
    ∀ r ∈ openRules, r.length text = 0 := by
  have hlanguage : languageLength text = 0 :=
    languageLength_eq_zero fun w hw => h w (by simp [opens, hw])
  have hliteral : prefixLength ['%', '%'] text = 0 :=
    prefixLength_eq_zero (h _ (by simp [opens]))
  have hline : lineCommentLength text = 0 :=
    lineCommentLength_eq_zero (h _ (by simp [opens]))
  have hcomment : prefixLength ['/', '*'] text = 0 :=
    prefixLength_eq_zero (h _ (by simp [opens]))
  simp [openRules, hlanguage, hliteral, hline, hcomment]

/-- A text that starts with none of the three characters opens nothing. -/
theorem opens_of_ne
    (hslash : c ≠ '/')
    (hpercent : c ≠ '%')
    (hdot : c ≠ '.') :
    ∀ w ∈ opens, ¬ w <+: c :: rest := by
  simp [opens, languages, hslash.symm, hpercent.symm, hdot.symm]

/-- Every keyword has the form of a name. -/
theorem isVarName_keyword :
    ∀ k ∈ keywords, isVarName k.1 = true := by
  decide

theorem keywordRule_length_eq_zero
    (hc : isVarNameStart c = false) :
    ∀ k ∈ keywords, (keywordRule k).length (c :: rest) = 0 := by
  intro k hk
  refine prefixLength_eq_zero fun hprefix => ?_
  have hname := isVarName_keyword k hk
  cases hw : k.1 with
  | nil =>
      rw [hw] at hname
      exact Bool.noConfusion hname
  | cons d w =>
      rw [hw] at hname hprefix
      rw [isVarName, (List.cons_prefix_cons.mp hprefix).1, hc] at hname
      exact Bool.noConfusion hname

theorem punctuationRule_length_eq_zero
    {p : Char × Terminal}
    (hp : p.1 ≠ c) :
    (punctuationRule p).length (c :: rest) = 0 :=
  prefixLength_eq_zero fun hprefix => hp (List.cons_prefix_cons.mp hprefix).1

theorem integerLength_eq_zero
    (hc : c.isDigit = false) :
    integerLength (c :: rest) = 0 := by
  unfold integerLength
  split
  · rename_i heq
    rw [(List.cons.inj heq).1] at hc
    exact absurd hc (by decide)
  · simp [hc]

theorem varnameLength_eq_zero
    (hc : isVarNameStart c = false) :
    varnameLength (c :: rest) = 0 := by
  simp [varnameLength, hc]

theorem whitespaceLength_eq_zero
    (hc : c ≠ '[') :
    whitespaceLength (c :: rest) = 0 := by
  unfold whitespaceLength
  split
  · rename_i h
    exact absurd (List.cons.inj h).1 hc
  · rfl

theorem all_isVarNameRest
    (h : isVarName w = true) :
    w ≠ [] ∧ w.all isVarNameRest = true := by
  cases w with
  | nil =>
      exact Bool.noConfusion h
  | cons c w =>
      rw [isVarName, Bool.and_eq_true] at h
      refine ⟨List.cons_ne_nil c w, ?_⟩
      have hc : isVarNameRest c = true := by
        have hstart := h.1
        simp only [isVarNameStart, Bool.or_eq_true] at hstart
        rcases hstart with hstart | hstart
        · simp [isVarNameRest, Char.isAlphanum, hstart]
        · simp [isVarNameRest, hstart]
      rw [List.all_cons, hc, h.2, Bool.and_self]

/-- A name matches no more of a longer one than all of it, and all of it only if it is the
same. -/
theorem prefixLength_word
    {k : Text}
    (hk : isVarName k = true)
    (hw : isVarName w = true)
    (hrest : Stops isVarNameRest rest) :
    prefixLength k (w ++ rest) ≤ w.length ∧ (k ≠ w → prefixLength k (w ++ rest) < w.length) := by
  obtain ⟨hne, hall⟩ := all_isVarNameRest hw
  by_cases hprefix : k <+: w ++ rest
  · obtain ⟨s, hs⟩ := hprefix
    have hkw : k <+: w := by
      refine ⟨s.takeWhile isVarNameRest, ?_⟩
      rw [← List.takeWhile_append_of_pos (List.all_eq_true.mp (all_isVarNameRest hk).2), hs]
      exact takeWhile_of_stops hall hrest
    have hlength : prefixLength k (w ++ rest) = k.length := by
      rw [← hs]
      exact prefixLength_append k s
    rw [hlength]
    exact ⟨hkw.length_le, fun h => lt_of_le_of_ne hkw.length_le fun heq => h (hkw.eq_of_length heq)⟩
  · rw [prefixLength_eq_zero hprefix]
    have hpos := List.length_pos_iff.mpr hne
    exact ⟨Nat.zero_le _, fun _ => hpos⟩

/-- A name is matched whole, if no character of a name is behind it. -/
theorem varnameLength_word
    (hw : isVarName w = true)
    (hrest : Stops isVarNameRest rest) :
    varnameLength (w ++ rest) = w.length := by
  cases w with
  | nil =>
      exact Bool.noConfusion hw
  | cons c w =>
      rw [isVarName, Bool.and_eq_true] at hw
      simp [varnameLength, hw.1, takeWhile_of_stops hw.2 hrest]

end Lengths

section Steps

variable {c : Char} {w rest text : Text}

/-- The rule that is taken. -/
theorem longest_rules
    (front back : List Rule) (r : Rule) {n : Nat}
    (hrules : rules = front ++ r :: back)
    (hlength : r.length text = n)
    (hpos : 0 < n)
    (hfront : ∀ r' ∈ front, r'.length text < n)
    (hback : ∀ r' ∈ back, r'.length text ≤ n) :
    MaximalMunch.longest (rules.map (Rule.matched text)) = some (r.action, n) := by
  have hmatched : Rule.matched text r = (r.action, n) := Prod.ext rfl hlength
  rw [hrules, List.map_append, List.map_cons, hmatched]
  refine MaximalMunch.longest_eq hpos ?_ ?_
  · intro p hp
    obtain ⟨r', hmem, rfl⟩ := List.mem_map.mp hp
    exact hfront r' hmem
  · intro p hp
    obtain ⟨r', hmem, rfl⟩ := List.mem_map.mp hp
    exact hback r' hmem

/-- What the scanner does when a rule for a token has the longest match. -/
theorem step_token
    {terminal : Text → Option Terminal} {n : Nat}
    (h : MaximalMunch.longest (rules.map (Rule.matched text)) = some (.token terminal, n)) :
    step .initial text = (n, .initial, terminal (text.take n)) := by
  rw [step, h]
  rfl

/-- What begins a name, a number or a bracket. -/
structure Plain (c : Char) : Prop where
  slash : c ≠ '/'
  percent : c ≠ '%'
  dot : c ≠ '.'
  newline : c ≠ '\n'

theorem openRules_length_of_plain
    (hc : Plain c) :
    ∀ r ∈ openRules, r.length (c :: rest) = 0 :=
  openRules_length (opens_of_ne hc.slash hc.percent hc.dot)

theorem plain_of_start
    (h : isVarNameStart c = true) :
    Plain c where
  slash := by rintro rfl; simp [isVarNameStart] at h
  percent := by rintro rfl; simp [isVarNameStart] at h
  dot := by rintro rfl; simp [isVarNameStart] at h
  newline := by rintro rfl; simp [isVarNameStart] at h

theorem plain_of_digit
    (h : c.isDigit = true) :
    Plain c where
  slash := by rintro rfl; simp at h
  percent := by rintro rfl; simp at h
  dot := by rintro rfl; simp at h
  newline := by rintro rfl; simp at h

/-- The characters of the rules for single characters are in no other class. -/
theorem punctuation_apart :
    ∀ p ∈ punctuation,
      isVarNameStart p.1 = false ∧ p.1.isDigit = false ∧ p.1 ≠ '/' ∧ p.1 ≠ '%' ∧ p.1 ≠ '.' ∧
        p.1 ≠ '\n' := by
  decide

theorem start_not_punctuation
    (h : isVarNameStart c = true) :
    ∀ p ∈ punctuation, p.1 ≠ c := by
  rintro p hp rfl
  rw [(punctuation_apart p hp).1] at h
  exact Bool.noConfusion h

theorem digit_not_punctuation
    (h : c.isDigit = true) :
    ∀ p ∈ punctuation, p.1 ≠ c := by
  rintro p hp rfl
  rw [(punctuation_apart p hp).2.1] at h
  exact Bool.noConfusion h

theorem start_not_digit
    (h : isVarNameStart c = true) :
    c.isDigit = false := by
  by_contra hdigit
  simp only [Bool.not_eq_false] at hdigit
  have halpha : c.isAlpha = (decide (c.val ≥ 'A'.val ∧ c.val ≤ 'Z'.val) ||
      (decide (c.val ≥ 'a'.val) && decide (c.val ≤ 'z'.val))) := rfl
  simp only [isVarNameStart, halpha, Bool.or_eq_true, Char.isDigit, Bool.and_eq_true,
    decide_eq_true_eq, ge_iff_le, UInt32.le_iff_toNat_le, UInt32.reduceToNat,
    Char.reduceVal] at h hdigit
  rcases h with (h | h) | rfl
  · omega
  · omega
  · exact absurd hdigit (by decide)

theorem exists_start
    (hw : isVarName w = true) :
    ∃ c w', w = c :: w' ∧ isVarNameStart c = true := by
  cases w with
  | nil =>
      exact Bool.noConfusion hw
  | cons c w =>
      rw [isVarName, Bool.and_eq_true] at hw
      exact ⟨c, w, rfl, hw.1⟩

/-- The rules other than those for keywords and names do not match a text with a name in
front. -/
theorem other_rules_word
    (hw : isVarName w = true)
    (rest : Text) :
    (∀ r ∈ openRules, r.length (w ++ rest) = 0) ∧
      (∀ r ∈ punctuation.map punctuationRule, r.length (w ++ rest) = 0) ∧
      (∀ r ∈ [integerRule, whitespaceRule, newlineRule], r.length (w ++ rest) = 0) := by
  obtain ⟨c, w, rfl, hc⟩ := exists_start hw
  have hplain := plain_of_start hc
  refine ⟨openRules_length_of_plain hplain, ?_, ?_⟩
  · intro r hr
    obtain ⟨p, hp, rfl⟩ := List.mem_map.mp hr
    exact punctuationRule_length_eq_zero (start_not_punctuation hc p hp)
  · have hinteger : integerLength (c :: w ++ rest) = 0 :=
      integerLength_eq_zero (start_not_digit hc)
    have hspace : whitespaceLength (c :: w ++ rest) = 0 :=
      whitespaceLength_eq_zero (start_not_punctuation hc ('[', .openBracket)
        (by simp [punctuation])).symm
    have hnewline : prefixLength ['\n'] (c :: w ++ rest) = 0 :=
      prefixLength_eq_zero fun h => hplain.newline (List.cons_prefix_cons.mp h).1.symm
    simp only [List.mem_cons, List.not_mem_nil, or_false]
    rintro r (rfl | rfl | rfl)
    exacts [hinteger, hspace, hnewline]

theorem step_keyword
    {t : Terminal}
    (hmem : (w, t) ∈ keywords)
    (hrest : Stops isVarNameRest rest) :
    step .initial (w ++ rest) = (w.length, .initial, some t) := by
  have hw : isVarName w = true := isVarName_keyword _ hmem
  have hpos : 0 < w.length := List.length_pos_iff.mpr (all_isVarNameRest hw).1
  have hlength : (keywordRule (w, t)).length (w ++ rest) = w.length := prefixLength_append w rest
  obtain ⟨hopen, hpunctuation, hothers⟩ := other_rules_word hw rest
  obtain ⟨pre, post, hsplit⟩ := List.append_of_mem hmem
  have hother : ∀ k ∈ pre, k.1 ≠ w := by
    intro k hk heq
    have hnodup : (keywords.map Prod.fst).Nodup := by decide
    rw [hsplit, List.map_append, List.map_cons, List.nodup_append] at hnodup
    exact hnodup.2.2 _ (List.mem_map_of_mem hk) _ List.mem_cons_self heq
  have hname : ∀ k ∈ pre ++ (w, t) :: post, isVarName k.1 = true := by
    rw [← hsplit]
    exact isVarName_keyword
  have hrules : rules = (openRules ++ pre.map keywordRule) ++ keywordRule (w, t) ::
      (post.map keywordRule ++ (punctuation.map punctuationRule ++
        [integerRule, varnameRule, whitespaceRule, newlineRule])) := by
    rw [rules, hsplit, List.map_append, List.map_cons, List.append_assoc, List.append_assoc]
    rfl
  refine step_token (longest_rules _ _ _ hrules hlength hpos ?_ ?_)
  · intro r hr
    rcases List.mem_append.mp hr with hr | hr
    · rwa [hopen r hr]
    · obtain ⟨k, hk, rfl⟩ := List.mem_map.mp hr
      exact (prefixLength_word (hname k (by simp [hk])) hw hrest).2 (hother k hk)
  · intro r hr
    simp only [List.mem_append, List.mem_cons, List.not_mem_nil, or_false] at hr
    rcases hr with hr | hr | rfl | rfl | rfl | rfl
    · obtain ⟨k, hk, rfl⟩ := List.mem_map.mp hr
      exact (prefixLength_word (hname k (by simp [hk])) hw hrest).1
    · exact (hpunctuation r hr).le.trans (Nat.zero_le _)
    · exact (hothers integerRule (by simp)).le.trans (Nat.zero_le _)
    · exact (varnameLength_word hw hrest).le
    · exact (hothers whitespaceRule (by simp)).le.trans (Nat.zero_le _)
    · exact (hothers newlineRule (by simp)).le.trans (Nat.zero_le _)

/-- A name that is no keyword is scanned as one. -/
theorem step_varname
    (name : VarName)
    (hmem : name.text ∉ keywords.map Prod.fst)
    (hrest : Stops isVarNameRest rest) :
    step .initial (name.text ++ rest) =
      (name.text.length, .initial, some (.varname name)) := by
  have hw : isVarName name.text = true := name.lexed
  have hpos : 0 < name.text.length := List.length_pos_iff.mpr (all_isVarNameRest hw).1
  have hlength : varnameRule.length (name.text ++ rest) = name.text.length :=
    varnameLength_word hw hrest
  obtain ⟨hopen, hpunctuation, hothers⟩ := other_rules_word hw rest
  have hrules : rules = (openRules ++ (keywords.map keywordRule ++
      (punctuation.map punctuationRule ++ [integerRule]))) ++ varnameRule ::
        [whitespaceRule, newlineRule] := by
    simp only [rules, List.append_assoc, List.cons_append, List.nil_append]
  have hlongest := longest_rules _ _ _ hrules hlength hpos ?_ ?_
  · have hvarname : varname name.text = some (.varname name) := dif_pos hw
    have hstep := step_token hlongest
    rwa [List.take_left, hvarname] at hstep
  · intro r hr
    simp only [List.mem_append, List.mem_singleton] at hr
    rcases hr with hr | hr | hr | rfl
    · rwa [hopen r hr]
    · obtain ⟨k, hk, rfl⟩ := List.mem_map.mp hr
      refine (prefixLength_word (isVarName_keyword k hk) hw hrest).2 fun heq => hmem ?_
      exact heq ▸ List.mem_map_of_mem hk
    · rwa [hpunctuation r hr]
    · rwa [hothers integerRule (by simp)]
  · intro r hr
    rw [hothers r (by
      simp only [List.mem_cons, List.not_mem_nil, or_false] at hr ⊢
      exact Or.inr hr)]
    exact Nat.zero_le _

theorem digit_not_start
    (h : c.isDigit = true) :
    isVarNameStart c = false := by
  by_contra hstart
  rw [start_not_digit (Bool.of_not_eq_false hstart)] at h
  exact Bool.noConfusion h

theorem word_rules_length
    (hc : isVarNameStart c = false)
    (rest : Text) :
    (∀ r ∈ keywords.map keywordRule, r.length (c :: rest) = 0) ∧
      varnameRule.length (c :: rest) = 0 := by
  refine ⟨?_, varnameLength_eq_zero hc⟩
  intro r hr
  obtain ⟨k, hk, rfl⟩ := List.mem_map.mp hr
  exact keywordRule_length_eq_zero hc k hk

theorem punctuation_rules_length
    (hc : ∀ p ∈ punctuation, p.1 ≠ c)
    (rest : Text) :
    (∀ r ∈ punctuation.map punctuationRule, r.length (c :: rest) = 0) ∧
      whitespaceRule.length (c :: rest) = 0 := by
  constructor
  · intro r hr
    obtain ⟨p, hp, rfl⟩ := List.mem_map.mp hr
    exact punctuationRule_length_eq_zero (hc p hp)
  · exact whitespaceLength_eq_zero (hc ('[', .openBracket) (by simp [punctuation])).symm

theorem newlineRule_length
    (hc : c ≠ '\n')
    (rest : Text) :
    newlineRule.length (c :: rest) = 0 :=
  prefixLength_eq_zero fun h => hc (List.cons_prefix_cons.mp h).1.symm

/-- The rules behind the first ones. -/
def laterRules : List Rule :=
  keywords.map keywordRule ++ (punctuation.map punctuationRule ++
    [integerRule, varnameRule, whitespaceRule, newlineRule])

/-- A character that starts no token matches none of the later rules. -/
theorem laterRules_length
    (hstart : isVarNameStart c = false)
    (hdigit : c.isDigit = false)
    (hpunctuation : ∀ p ∈ punctuation, p.1 ≠ c)
    (hnewline : c ≠ '\n')
    (rest : Text) :
    ∀ r ∈ laterRules, r.length (c :: rest) = 0 := by
  obtain ⟨hkeyword, hvarname⟩ := word_rules_length hstart rest
  obtain ⟨hchars, hspace⟩ := punctuation_rules_length hpunctuation rest
  intro r hr
  simp only [laterRules, List.mem_append, List.mem_cons, List.not_mem_nil, or_false] at hr
  rcases hr with hr | hr | rfl | rfl | rfl | rfl
  · exact hkeyword r hr
  · exact hchars r hr
  · exact integerLength_eq_zero hdigit
  · exact hvarname
  · exact hspace
  · exact newlineRule_length hnewline rest

/-- A decimal number is matched whole. -/
theorem integerLength_decimal
    {digits : Text}
    (hdigits : digits.all Char.isDigit = true)
    (hrest : Stops Char.isDigit rest)
    (hhex : digits = ['0'] → rest.head? ≠ some 'x') :
    integerLength (digits ++ rest) = digits.length := by
  unfold integerLength
  rw [takeWhile_of_stops hdigits hrest]
  split
  · rename_i behind heq
    exfalso
    match digits with
    | [] =>
        rw [List.nil_append] at heq
        rw [heq] at hrest
        exact absurd (hrest '0' rfl) (by decide)
    | [d] =>
        rw [List.singleton_append] at heq
        obtain ⟨rfl, rfl⟩ := List.cons.inj heq
        exact hhex rfl rfl
    | d :: e :: digits =>
        simp only [List.cons_append, List.cons.injEq] at heq
        obtain ⟨rfl, rfl, heq⟩ := heq
        simp at hdigits
  · exact Nat.max_zero _

/-- A hexadecimal number is matched whole. -/
theorem integerLength_hexadecimal
    {digits : Text}
    (hdigits : digits.all Char.isHexDigit = true)
    (hrest : Stops Char.isHexDigit rest) :
    integerLength ('0' :: 'x' :: digits ++ rest) = ('0' :: 'x' :: digits).length := by
  have hdecimal : (('0' :: 'x' :: (digits ++ rest)).takeWhile Char.isDigit).length = 1 := by
    have hx : 'x'.isDigit = false := by decide
    have hzero : '0'.isDigit = true := by decide
    simp [hx, hzero]
  show max (('0' :: 'x' :: (digits ++ rest)).takeWhile Char.isDigit).length
    (((digits ++ rest).takeWhile Char.isHexDigit).length + 2) = _
  rw [hdecimal, takeWhile_of_stops hdigits hrest]
  simp only [List.length_cons]
  omega

theorem step_integer
    (hne : w ≠ [])
    (hhead : ∀ c ∈ w.head?, c.isDigit = true)
    (hlength : integerLength (w ++ rest) = w.length) :
    step .initial (w ++ rest) = (w.length, .initial, some (.integer w)) := by
  obtain ⟨c, w, rfl⟩ := List.exists_cons_of_ne_nil hne
  have hc : c.isDigit = true := hhead c rfl
  have hplain := plain_of_digit hc
  obtain ⟨hkeyword, hvarname⟩ := word_rules_length (digit_not_start hc) (w ++ rest)
  obtain ⟨hchars, hspace⟩ := punctuation_rules_length (digit_not_punctuation hc) (w ++ rest)
  have hpos : 0 < (c :: w).length := Nat.succ_pos _
  have hrules : rules = (openRules ++ (keywords.map keywordRule ++
      punctuation.map punctuationRule)) ++ integerRule ::
        [varnameRule, whitespaceRule, newlineRule] := by
    simp only [rules, List.append_assoc]
  have hlongest := longest_rules _ _ _ hrules hlength hpos ?_ ?_
  · rw [step_token hlongest, List.take_left]
  · intro r hr
    simp only [List.mem_append] at hr
    rcases hr with hr | hr | hr
    · rwa [List.cons_append, openRules_length_of_plain hplain r hr]
    · rwa [List.cons_append, hkeyword r hr]
    · rwa [List.cons_append, hchars r hr]
  · intro r hr
    simp only [List.mem_cons, List.not_mem_nil, or_false] at hr
    rcases hr with rfl | rfl | rfl
    · exact hvarname.le.trans (Nat.zero_le _)
    · exact hspace.le.trans (Nat.zero_le _)
    · exact (newlineRule_length hplain.newline _).le.trans (Nat.zero_le _)

theorem step_punctuation
    {t : Terminal}
    (hmem : (c, t) ∈ punctuation)
    (hspace : whitespaceLength (c :: rest) = 0) :
    step .initial ([c] ++ rest) = ([c].length, .initial, some t) := by
  rw [List.singleton_append, List.length_singleton]
  obtain ⟨hstart, hdigit, hslash, hpercent, hdot, hnewline⟩ := punctuation_apart _ hmem
  have hlength : (punctuationRule (c, t)).length (c :: rest) = 1 := prefixLength_append [c] rest
  have hplain : Plain c := ⟨hslash, hpercent, hdot, hnewline⟩
  obtain ⟨hkeyword, hvarname⟩ := word_rules_length hstart rest
  obtain ⟨pre, post, hsplit⟩ := List.append_of_mem hmem
  have hnodup : (pre.map Prod.fst ++ c :: post.map Prod.fst).Nodup := by
    have hall : (punctuation.map Prod.fst).Nodup := by decide
    rwa [hsplit, List.map_append, List.map_cons] at hall
  rw [List.nodup_append] at hnodup
  have hpre : ∀ r ∈ pre.map punctuationRule, r.length (c :: rest) = 0 := by
    intro r hr
    obtain ⟨p, hp, rfl⟩ := List.mem_map.mp hr
    exact punctuationRule_length_eq_zero
      (hnodup.2.2 _ (List.mem_map_of_mem hp) _ List.mem_cons_self)
  have hpost : ∀ r ∈ post.map punctuationRule, r.length (c :: rest) = 0 := by
    intro r hr
    obtain ⟨p, hp, rfl⟩ := List.mem_map.mp hr
    refine punctuationRule_length_eq_zero fun heq => ?_
    exact (List.nodup_cons.mp hnodup.2.1).1 (heq ▸ List.mem_map_of_mem hp)
  have hrules : rules = (openRules ++ (keywords.map keywordRule ++ pre.map punctuationRule)) ++
      punctuationRule (c, t) :: (post.map punctuationRule ++
        [integerRule, varnameRule, whitespaceRule, newlineRule]) := by
    rw [rules, hsplit, List.map_append, List.map_cons]
    simp only [List.append_assoc, List.cons_append]
  refine step_token (longest_rules _ _ _ hrules hlength Nat.one_pos ?_ ?_)
  · intro r hr
    simp only [List.mem_append] at hr
    rcases hr with hr | hr | hr
    · rw [openRules_length_of_plain hplain r hr]
      exact Nat.one_pos
    · rw [hkeyword r hr]
      exact Nat.one_pos
    · rw [hpre r hr]
      exact Nat.one_pos
  · intro r hr
    simp only [List.mem_append, List.mem_cons, List.not_mem_nil, or_false] at hr
    rcases hr with hr | rfl | rfl | rfl | rfl
    · exact (hpost r hr).le.trans (Nat.zero_le _)
    · exact (integerLength_eq_zero hdigit).le.trans (Nat.zero_le _)
    · exact hvarname.le.trans (Nat.zero_le _)
    · exact hspace.le.trans (Nat.zero_le _)
    · exact (newlineRule_length hnewline rest).le.trans (Nat.zero_le _)

/-- What the rules behind the first ones make of the characters that those begin with. -/
theorem laterRules_length_of_open
    (hc : c = '/' ∨ c = '%' ∨ c = '.') :
    ∀ r ∈ laterRules, r.length (c :: rest) = 0 := by
  rcases hc with rfl | rfl | rfl
  · exact laterRules_length (by decide) (by decide) (by decide) (by decide) rest
  · exact laterRules_length (by decide) (by decide) (by decide) (by decide) rest
  · exact laterRules_length (by decide) (by decide) (by decide) (by decide) rest

/-- One of the first rules is taken, and the others do not match. -/
theorem longest_openRules
    (hc : c = '/' ∨ c = '%' ∨ c = '.')
    (front back : List Rule) (r : Rule) {n : Nat}
    (hrules : openRules = front ++ r :: back)
    (hlength : r.length (c :: rest) = n)
    (hpos : 0 < n)
    (hothers : ∀ r' ∈ front ++ back, r'.length (c :: rest) = 0) :
    MaximalMunch.longest (rules.map (Rule.matched (c :: rest))) = some (r.action, n) := by
  refine longest_rules front (back ++ laterRules) r ?_ hlength hpos ?_ ?_
  · show openRules ++ laterRules = _
    rw [hrules, List.append_assoc, List.cons_append]
  · intro r' hr'
    rwa [hothers r' (List.mem_append_left _ hr')]
  · intro r' hr'
    rcases List.mem_append.mp hr' with hr' | hr'
    · exact (hothers r' (List.mem_append_right _ hr')).le.trans (Nat.zero_le _)
    · exact (laterRules_length_of_open hc r' hr').le.trans (Nat.zero_le _)

theorem step_language
    (hmem : w ∈ languages)
    (rest : Text) :
    step .initial (w ++ rest) = (w.length, .initial, some (.language w)) := by
  obtain ⟨w, rfl⟩ : ∃ w', w = '.' :: w' := by
    simp only [languages, List.mem_cons, List.not_mem_nil, or_false] at hmem
    rcases hmem with rfl | rfl | rfl | rfl
    all_goals exact ⟨_, rfl⟩
  have hlength : languageLength ('.' :: w ++ rest) = ('.' :: w).length := by
    simp only [languages, List.mem_cons, List.not_mem_nil, or_false] at hmem
    rcases hmem with h | h | h | h
    all_goals simp [h, languages, languageLength, prefixLength]
  have hlongest : MaximalMunch.longest (rules.map (Rule.matched ('.' :: w ++ rest))) =
      some (.token fun text => some (.language text), ('.' :: w).length) := by
    refine longest_openRules (Or.inr (Or.inr rfl)) [_, _, _] [] _ rfl hlength
      (Nat.succ_pos w.length) ?_
    simp [lineCommentLength, prefixLength]
  rw [step_token hlongest, List.take_left]

theorem step_openComment
    (rest : Text) :
    step .initial ('/' :: '*' :: rest) = (2, .comment, none) := by
  have hlongest : MaximalMunch.longest (rules.map (Rule.matched ('/' :: '*' :: rest))) =
      some (.beginComment, 2) := by
    refine longest_openRules (Or.inl rfl) [] _ _ rfl rfl Nat.two_pos ?_
    simp [lineCommentLength, prefixLength, languageLength, languages]
  rw [step, hlongest]
  rfl

theorem step_openLiteral
    (rest : Text) :
    step .initial ('%' :: '%' :: rest) = (2, .literal [], none) := by
  have hlongest : MaximalMunch.longest (rules.map (Rule.matched ('%' :: '%' :: rest))) =
      some (.beginLiteral, 2) := by
    refine longest_openRules (Or.inr (Or.inl rfl)) [_, _] _ _ rfl rfl Nat.two_pos ?_
    simp [lineCommentLength, prefixLength, languageLength, languages]
  rw [step, hlongest]
  rfl

/-- A comment of one line ends in front of its newline. -/
theorem step_lineComment
    {body : Text}
    (hbody : '\n' ∉ body)
    (hrest : Stops (· ≠ '\n') rest) :
    step .initial ('/' :: '/' :: body ++ rest) =
      (('/' :: '/' :: body).length, .initial, some .comment) := by
  have hall : body.all (· ≠ '\n') = true := by
    simp only [List.all_eq_true, decide_eq_true_eq]
    rintro c hc rfl
    exact hbody hc
  have hlength : lineCommentLength ('/' :: '/' :: (body ++ rest)) =
      ('/' :: '/' :: body).length := by
    show ((body ++ rest).takeWhile (· ≠ '\n')).length + 2 = _
    rw [takeWhile_of_stops hall hrest]
    rfl
  have hlongest : MaximalMunch.longest (rules.map (Rule.matched ('/' :: '/' :: body ++ rest))) =
      some (.token fun _ => some .comment, ('/' :: '/' :: body).length) := by
    refine longest_openRules (Or.inl rfl) [_] _ _ rfl hlength (Nat.succ_pos _) ?_
    simp [prefixLength, languageLength, languages]
  exact step_token hlongest

theorem step_blank
    (h : Blank c rest) :
    step .initial (c :: rest) = (1, .initial, none) := by
  have hopen : ∀ r ∈ openRules, r.length (c :: rest) = 0 := openRules_length h.opens
  have hchars : ∀ p ∈ punctuation, p.1 ≠ c := by
    rintro p hp rfl
    exact h.punctuation (List.mem_map_of_mem hp)
  by_cases hnewline : c = '\n'
  · subst hnewline
    obtain ⟨hkeyword, hvarname⟩ := word_rules_length h.start rest
    obtain ⟨hpunctuation, hspace⟩ := punctuation_rules_length hchars rest
    have hrules : rules = (openRules ++ (keywords.map keywordRule ++
        (punctuation.map punctuationRule ++ [integerRule, varnameRule, whitespaceRule]))) ++
          newlineRule :: [] := by
      simp only [rules, List.append_assoc, List.cons_append, List.nil_append]
    have hlongest : MaximalMunch.longest (rules.map (Rule.matched ('\n' :: rest))) =
        some (.skip, 1) := by
      refine longest_rules _ _ newlineRule hrules rfl Nat.one_pos ?_
        (fun r hr => absurd hr List.not_mem_nil)
      intro r hr
      suffices hzero : r.length ('\n' :: rest) = 0 by
        rw [hzero]
        exact Nat.one_pos
      simp only [List.mem_append, List.mem_cons, List.not_mem_nil, or_false] at hr
      rcases hr with hr | hr | hr | rfl | rfl | rfl
      · exact hopen r hr
      · exact hkeyword r hr
      · exact hpunctuation r hr
      · exact integerLength_eq_zero h.digit
      · exact hvarname
      · exact hspace
    rw [step, hlongest]
    rfl
  · have hnone : MaximalMunch.longest (rules.map (Rule.matched (c :: rest))) = none := by
      refine MaximalMunch.longest_eq_none ?_
      intro p hp
      obtain ⟨r, hr, rfl⟩ := List.mem_map.mp hp
      rcases List.mem_append.mp hr with hr | hr
      · exact hopen r hr
      · exact laterRules_length h.start h.digit hchars hnewline rest r hr
    rw [step, hnone]
    rfl

theorem step_whitespace
    (rest : Text) :
    step .initial (whitespace ++ rest) = (whitespaceLength rest + 6, .initial, none) := by
  have hlength : whitespaceRule.length (whitespace ++ rest) = whitespaceLength rest + 6 := by
    show whitespaceLength (whitespace ++ rest) = _
    simp [whitespace, whitespaceLength]
  have hplain : Plain '[' := ⟨by decide, by decide, by decide, by decide⟩
  have hrules : rules = (openRules ++ (keywords.map keywordRule ++
      (punctuation.map punctuationRule ++ [integerRule, varnameRule]))) ++
        whitespaceRule :: [newlineRule] := by
    simp only [rules, List.append_assoc, List.cons_append, List.nil_append]
  obtain ⟨hkeyword, hvarname⟩ :=
    word_rules_length (show isVarNameStart '[' = false by decide) (whitespace.tail ++ rest)
  have hlongest := longest_rules _ _ whitespaceRule hrules hlength (Nat.succ_pos _) ?_ ?_
  · rw [step, hlongest]
    rfl
  · intro r hr
    suffices hone : r.length (whitespace ++ rest) ≤ 1 by
      omega
    simp only [List.mem_append, List.mem_cons, List.not_mem_nil, or_false] at hr
    rcases hr with hr | hr | hr | rfl | rfl
    · exact (openRules_length_of_plain hplain r hr).le.trans (Nat.zero_le _)
    · exact (hkeyword r hr).le.trans (Nat.zero_le _)
    · obtain ⟨p, hp, rfl⟩ := List.mem_map.mp hr
      show prefixLength [p.1] _ ≤ 1
      rw [prefixLength]
      split_ifs
      · exact le_rfl
      · exact Nat.zero_le _
    · exact (integerLength_eq_zero (by decide)).le.trans (Nat.zero_le _)
    · exact hvarname.le.trans (Nat.zero_le _)
  · intro r hr
    rw [List.mem_singleton.mp hr]
    exact (newlineRule_length hplain.newline _).le.trans (Nat.zero_le _)

end Steps

section Lex

variable {t : Terminal} {ts : List Terminal} {c : Char} {w rest text : Text}

/-- A step that takes a word leaves the rest to the next steps. -/
theorem lex_append
    {t : Option Terminal}
    (hw : w ≠ [])
    (hstep : step .initial (w ++ rest) = (w.length, .initial, t)) :
    lex (w ++ rest) = t.toList ++ lex rest :=
  MaximalMunch.scan_append hw hstep

/-- Inside of a comment everything but its end is skipped. -/
theorem commentStep_of_body
    (h : ¬ ['*', '/'] <+: text) :
    step .comment text = (1, .comment, none) :=
  if_neg fun hprefix => h (List.isPrefixOf_iff_prefix.mp hprefix)

theorem commentStep_of_end
    (rest : Text) :
    step .comment (['*', '/'] ++ rest) = (2, .initial, some .comment) := by
  rw [step, commentStep, if_pos (List.isPrefixOf_iff_prefix.mpr (List.prefix_append _ rest))]

/-- At its end a literal is handed over, up to its first NUL. -/
theorem literalStep_of_end
    (sBuf rest : Text) :
    step (.literal sBuf) (['%', '%'] ++ rest) =
      (2, .initial, some (.literal (sBuf.takeWhile (· ≠ '\x00')))) := by
  rw [step, literalStep, if_pos (List.isPrefixOf_iff_prefix.mpr (List.prefix_append _ rest))]

/-- Inside of a literal everything but its end is collected. -/
theorem literalStep_of_body
    (sBuf : Text)
    (h : ¬ ['%', '%'] <+: c :: text) :
    step (.literal sBuf) (c :: text) = (1, .literal (sBuf ++ [c]), none) :=
  if_neg fun hprefix => h (List.isPrefixOf_iff_prefix.mp hprefix)

/-- A comment ends at the first mark of its end. -/
theorem lex_comment
    {body : Text}
    (hbody : MaximalMunch.avoids ['*', '/'] body = true)
    (rest : Text) :
    lex ('/' :: '*' :: (body ++ ['*', '/']) ++ rest) = .comment :: lex rest := by
  have hopen : lex ('/' :: '*' :: (body ++ ['*', '/']) ++ rest) =
      MaximalMunch.scan step 0 .comment (body ++ (['*', '/'] ++ rest)) := by
    have hstep := step_openComment (body ++ (['*', '/'] ++ rest))
    simp only [List.cons_append, List.append_assoc, List.nil_append] at hstep ⊢
    exact MaximalMunch.scan_append (List.cons_ne_nil '/' ['*']) hstep
  have hbehind := MaximalMunch.scan_until (fun _ : Unit => State.comment)
    (fun _ _ => ()) (fun _ _ _ h => commentStep_of_body h) () body rest hbody
  rw [hopen, hbehind]
  exact MaximalMunch.scan_append (List.cons_ne_nil '*' ['/']) (commentStep_of_end rest)

/-- A literal block ends at the first mark of its end. -/
theorem lex_literal
    {body : Text}
    (hbody : MaximalMunch.avoids ['%', '%'] body = true)
    (rest : Text) :
    lex ('%' :: '%' :: (body ++ ['%', '%']) ++ rest) =
      .literal (body.takeWhile (· ≠ '\x00')) :: lex rest := by
  have hopen : lex ('%' :: '%' :: (body ++ ['%', '%']) ++ rest) =
      MaximalMunch.scan step 0 (.literal []) (body ++ (['%', '%'] ++ rest)) := by
    have hstep := step_openLiteral (body ++ (['%', '%'] ++ rest))
    simp only [List.cons_append, List.append_assoc, List.nil_append] at hstep ⊢
    exact MaximalMunch.scan_append (List.cons_ne_nil '%' ['%']) hstep
  have hbehind := MaximalMunch.scan_until State.literal
    (fun sBuf c => sBuf ++ [c]) (fun sBuf _ _ h => literalStep_of_body sBuf h) []
    body rest hbody
  have hfold : ∀ body sBuf : Text,
      body.foldl (fun sBuf c => sBuf ++ [c]) sBuf = sBuf ++ body := by
    intro body
    induction body with
    | nil =>
        exact fun sBuf => (List.append_nil sBuf).symm
    | cons c body ih =>
        exact fun sBuf => (ih (sBuf ++ [c])).trans (List.append_cons sBuf c body).symm
  rw [hopen, hbehind, hfold, List.nil_append]
  exact MaximalMunch.scan_append (List.cons_ne_nil '%' ['%']) (literalStep_of_end body rest)

/-- What the lexer makes of a token in front of a text. -/
theorem lex_spells
    (hw : Spells t w rest) :
    lex (w ++ rest) = t :: lex rest := by
  cases hw with
  | keyword hmem hrest =>
      exact lex_append (all_isVarNameRest (isVarName_keyword _ hmem)).1 (step_keyword hmem hrest)
  | varname name hmem hrest =>
      exact lex_append (all_isVarNameRest name.lexed).1 (step_varname name hmem hrest)
  | decimal hne hdigits hrest hhex =>
      refine lex_append hne (step_integer hne ?_ (integerLength_decimal hdigits hrest hhex))
      intro c hc
      exact List.all_eq_true.mp hdigits c (List.mem_of_mem_head? hc)
  | hexadecimal hdigits hrest =>
      refine lex_append (List.cons_ne_nil _ _) (step_integer (List.cons_ne_nil _ _) ?_
        (integerLength_hexadecimal hdigits hrest))
      intro c hc
      obtain rfl := Option.some.inj hc
      decide
  | language hmem =>
      have hne : w ≠ [] := by
        rintro rfl
        exact absurd hmem (by decide)
      exact lex_append hne (step_language hmem rest)
  | punctuation hmem hspace =>
      exact lex_append (List.cons_ne_nil _ _) (step_punctuation hmem hspace)
  | comment hbody =>
      exact lex_comment hbody rest
  | lineComment hbody hrest =>
      exact lex_append (List.cons_ne_nil _ _) (step_lineComment hbody hrest)
  | literal hbody =>
      exact lex_literal hbody rest

/-- A character that begins no token is passed over. -/
theorem lex_blank
    (h : Blank c rest) :
    lex (c :: rest) = lex rest :=
  lex_append (List.cons_ne_nil c []) (step_blank h)

theorem whitespaceLength_le
    (text : Text) :
    whitespaceLength text ≤ text.length := by
  fun_induction whitespaceLength text with
  | case1 text ih =>
      simp only [List.length_cons]
      omega
  | case2 text =>
      exact Nat.zero_le _

theorem lex_whitespaces
    (rest : Text) :
    lex (whitespace ++ rest) = lex (rest.drop (whitespaceLength rest)) := by
  have hlength : (whitespace ++ rest.take (whitespaceLength rest)).length =
      whitespaceLength rest + 6 := by
    rw [List.length_append, List.length_take_of_le (whitespaceLength_le rest)]
    exact Nat.add_comm _ _
  have hsplit : whitespace ++ rest = (whitespace ++ rest.take (whitespaceLength rest)) ++
      rest.drop (whitespaceLength rest) := by
    rw [List.append_assoc, List.take_append_drop]
  have hstep := step_whitespace rest
  rw [hsplit, ← hlength] at hstep
  rw [hsplit]
  exact lex_append (by simp [whitespace]) hstep

/-- The texts that the rule for white space matches can be passed over one by one. -/
theorem lex_whitespace
    (rest : Text) :
    lex (whitespace ++ rest) = lex rest := by
  rw [lex_whitespaces]
  by_cases hrest : whitespace <+: rest
  · obtain ⟨rest, rfl⟩ := hrest
    rw [lex_whitespaces]
    rfl
  · have hzero : whitespaceLength rest = 0 := by
      unfold whitespaceLength
      split
      · rename_i behind
        exact absurd ⟨behind, rfl⟩ hrest
      · rfl
    rw [hzero, List.drop_zero]

/-- A comment that is not closed runs to the end. -/
theorem lex_openComment
    {body : Text}
    (hbody : ¬ ['*', '/'] <:+: body) :
    lex ('/' :: '*' :: body) = [] := by
  have hopen : lex ('/' :: '*' :: body) = MaximalMunch.scan step 0 .comment body :=
    MaximalMunch.scan_append (List.cons_ne_nil '/' ['*']) (step_openComment body)
  rw [hopen]
  exact MaximalMunch.scan_absent (fun _ : Unit => State.comment) (fun _ _ => ())
    (fun _ _ _ h => commentStep_of_body h) () body hbody

/-- So does a literal block. -/
theorem lex_openLiteral
    {body : Text}
    (hbody : ¬ ['%', '%'] <:+: body) :
    lex ('%' :: '%' :: body) = [] := by
  have hopen : lex ('%' :: '%' :: body) = MaximalMunch.scan step 0 (.literal []) body :=
    MaximalMunch.scan_append (List.cons_ne_nil '%' ['%']) (step_openLiteral body)
  rw [hopen]
  exact MaximalMunch.scan_absent State.literal (fun sBuf c => sBuf ++ [c])
    (fun sBuf _ _ h => literalStep_of_body sBuf h) [] body hbody

/-- The lexer finds the tokens that are written. -/
theorem lex_of_renders
    (h : Renders ts text) :
    lex text = ts := by
  induction h with
  | nil =>
      rfl
  | blank hblank hrest ih =>
      rw [lex_blank hblank, ih]
  | whitespace hrest ih =>
      rw [lex_whitespace, ih]
  | token hw hrest ih =>
      rw [lex_spells hw, ih]
  | openComment hbody =>
      exact lex_openComment hbody
  | openLiteral hbody =>
      exact lex_openLiteral hbody

/-- Every text starts with its longest run of one kind of character. -/
theorem exists_stops
    (p : Char → Bool) (text : Text) :
    ∃ w rest, text = w ++ rest ∧ w.all p = true ∧ Stops p rest := by
  refine ⟨text.takeWhile p, text.dropWhile p, List.takeWhile_append_dropWhile.symm, ?_, ?_⟩
  · exact List.all_takeWhile
  · intro c hc
    have hnot := List.head?_dropWhile_not p text
    rw [Option.mem_def.mp hc] at hnot
    exact hnot

/-- A name or a keyword at the front of a text. -/
theorem spells_of_start
    (hc : isVarNameStart c = true)
    (text : Text) :
    ∃ t w rest, c :: text = w ++ rest ∧ w ≠ [] ∧ Spells t w rest := by
  obtain ⟨w, rest, rfl, hall, hstops⟩ := exists_stops isVarNameRest text
  have hname : isVarName (c :: w) = true := by
    rw [isVarName, hc, hall, Bool.and_self]
  by_cases hmem : c :: w ∈ keywords.map Prod.fst
  · obtain ⟨k, hk, heq⟩ := List.mem_map.mp hmem
    refine ⟨k.2, c :: w, rest, rfl, List.cons_ne_nil c w, .keyword ?_ hstops⟩
    rwa [← heq]
  · exact ⟨_, c :: w, rest, rfl, List.cons_ne_nil c w, .varname ⟨c :: w, hname⟩ hmem hstops⟩

/-- A number at the front of a text. -/
theorem spells_of_digit
    (hc : c.isDigit = true)
    (text : Text) :
    ∃ t w rest, c :: text = w ++ rest ∧ w ≠ [] ∧ Spells t w rest := by
  by_cases hhex : ∃ behind, c :: text = '0' :: 'x' :: behind
  · obtain ⟨behind, heq⟩ := hhex
    obtain ⟨w, rest, rfl, hall, hstops⟩ := exists_stops Char.isHexDigit behind
    exact ⟨_, '0' :: 'x' :: w, rest, heq, List.cons_ne_nil _ _, .hexadecimal hall hstops⟩
  · obtain ⟨w, rest, rfl, hall, hstops⟩ := exists_stops Char.isDigit text
    refine ⟨_, c :: w, rest, rfl, List.cons_ne_nil c w,
      .decimal (List.cons_ne_nil c w) ?_ hstops ?_⟩
    · rw [List.all_cons, hc, hall, Bool.and_self]
    · intro hzero hx
      obtain ⟨rfl, rfl⟩ := List.cons.inj hzero
      obtain ⟨behind, rfl⟩ := List.head?_eq_some_iff.mp hx
      exact hhex ⟨behind, rfl⟩

/-- A comment at the front of a text, if it is closed. -/
theorem spells_comment_or_open
    (text : Text) :
    (∃ t w rest, '/' :: '*' :: text = w ++ rest ∧ w ≠ [] ∧ Spells t w rest) ∨
      Renders [] ('/' :: '*' :: text) := by
  rcases MaximalMunch.avoids_or_absent (List.cons_ne_nil '*' ['/']) text with
    ⟨body, rest, rfl, hbody⟩ | habsent
  · refine Or.inl ⟨_, '/' :: '*' :: (body ++ ['*', '/']), rest, ?_, List.cons_ne_nil _ _,
      .comment hbody⟩
    simp only [List.cons_append, List.append_assoc, List.nil_append]
  · exact Or.inr (.openComment habsent)

/-- A literal block at the front of a text, if it is closed. -/
theorem spells_literal_or_open
    (text : Text) :
    (∃ t w rest, '%' :: '%' :: text = w ++ rest ∧ w ≠ [] ∧ Spells t w rest) ∨
      Renders [] ('%' :: '%' :: text) := by
  rcases MaximalMunch.avoids_or_absent (List.cons_ne_nil '%' ['%']) text with
    ⟨body, rest, rfl, hbody⟩ | habsent
  · refine Or.inl ⟨_, '%' :: '%' :: (body ++ ['%', '%']), rest, ?_, List.cons_ne_nil _ _,
      .literal hbody⟩
    simp only [List.cons_append, List.append_assoc, List.nil_append]
  · exact Or.inr (.openLiteral habsent)

/-- What the first rules match is a token or is not closed. -/
theorem spells_of_open
    (hw : w ∈ opens)
    (rest : Text) :
    (∃ t w' rest', w ++ rest = w' ++ rest' ∧ w' ≠ [] ∧ Spells t w' rest') ∨
      Renders [] (w ++ rest) := by
  simp only [opens, List.mem_cons] at hw
  rcases hw with rfl | rfl | rfl | hlanguage
  · exact spells_comment_or_open rest
  · obtain ⟨body, rest, rfl, hall, hstops⟩ := exists_stops (fun c => c ≠ '\n') rest
    refine Or.inl ⟨_, '/' :: '/' :: body, rest, rfl, List.cons_ne_nil _ _, .lineComment ?_ hstops⟩
    intro hmem
    have hnewline := List.all_eq_true.mp hall '\n' hmem
    simp at hnewline
  · exact spells_literal_or_open rest
  · refine Or.inl ⟨_, w, rest, rfl, ?_, .language hlanguage⟩
    rintro rfl
    exact absurd hlanguage (by decide)

/-- At the front of a text there is a token, or something that is passed over. -/
theorem renders_front
    (c : Char) (text : Text) :
    (∃ t w rest, c :: text = w ++ rest ∧ w ≠ [] ∧ Spells t w rest) ∨
      Renders [] (c :: text) ∨ Blank c text ∨ whitespace <+: c :: text := by
  by_cases hstart : isVarNameStart c = true
  · exact Or.inl (spells_of_start hstart text)
  by_cases hdigit : c.isDigit = true
  · exact Or.inl (spells_of_digit hdigit text)
  by_cases hpunctuation : c ∈ punctuation.map Prod.fst
  · by_cases hspace : whitespaceLength (c :: text) = 0
    · obtain ⟨p, hp, rfl⟩ := List.mem_map.mp hpunctuation
      exact Or.inl ⟨p.2, [p.1], text, rfl, List.cons_ne_nil _ _, .punctuation hp hspace⟩
    · refine Or.inr (Or.inr (Or.inr ?_))
      unfold whitespaceLength at hspace
      split at hspace
      · rename_i behind heq
        exact ⟨behind, heq.symm⟩
      · exact absurd rfl hspace
  by_cases hopen : ∃ w ∈ opens, w <+: c :: text
  · obtain ⟨w, hw, rest, hrest⟩ := hopen
    rw [← hrest]
    exact (spells_of_open hw rest).imp_right Or.inl
  · refine Or.inr (Or.inr (Or.inl ⟨?_, ?_, hpunctuation, ?_⟩))
    · exact Bool.eq_false_iff.mpr hstart
    · exact Bool.eq_false_iff.mpr hdigit
    · exact fun w hw hprefix => hopen ⟨w, hw, hprefix⟩

/-- Every text is a way to write some tokens. -/
theorem exists_renders
    (text : Text) :
    ∃ ts, Renders ts text := by
  induction hn : text.length using Nat.strong_induction_on generalizing text with
  | h n ih =>
      cases text with
      | nil =>
          exact ⟨[], .nil⟩
      | cons c text =>
          have hrest : ∀ w rest, c :: text = w ++ rest → w ≠ [] → ∃ ts, Renders ts rest := by
            intro w rest hsplit hne
            have hpos := List.length_pos_iff.mpr hne
            have hlength : n = w.length + rest.length := by
              rw [← hn, hsplit, List.length_append]
            exact ih rest.length (by omega) rest rfl
          rcases renders_front c text with
            ⟨t, w, rest, hsplit, hne, hw⟩ | hopen | hblank | ⟨rest, hspace⟩
          · obtain ⟨ts, hts⟩ := hrest w rest hsplit hne
            exact ⟨t :: ts, hsplit ▸ .token hw hts⟩
          · exact ⟨[], hopen⟩
          · obtain ⟨ts, hts⟩ := hrest [c] text rfl (List.cons_ne_nil c [])
            exact ⟨ts, .blank hblank hts⟩
          · obtain ⟨ts, hts⟩ := hrest whitespace rest hspace.symm (List.cons_ne_nil _ _)
            exact ⟨ts, hspace ▸ .whitespace hts⟩

/-- Every text is rendered by what the scanner makes of it. By induction on its length. -/
theorem renders_lex
    (text : Text) :
    Renders (lex text) text := by
  obtain ⟨ts, hts⟩ := exists_renders text
  rwa [lex_of_renders hts]

/-- The tokens of a text are those that it is a way to write. -/
theorem lex_eq_iff
    (text : Text) (ts : List Terminal) :
    lex text = ts ↔ Renders ts text := by
  constructor
  · rintro rfl
    exact renders_lex text
  · exact lex_of_renders

end Lex

end Lexer
end Idlc
end Gamnet
