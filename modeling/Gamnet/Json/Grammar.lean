import Gamnet.Json.Reader
import Mathlib.Data.List.TakeWhile

/-!
# JSON texts

How a value is written: with blanks between the tokens, escapes in strings, and the members of an
object in any order. The reader reads what is written so, whatever is behind it, as long as it is
not nested too deep. The last number of each relation is how deep that is.
-/

namespace Gamnet
namespace Json

open Nat (ofDigitChars)
open Reader

/-- What may stand between two tokens. -/
def Blank (text : Text) : Prop :=
  ∀ c ∈ text, isSpace c = true

/-- What a string is between its quotes. -/
inductive StringText : Text → Text → Prop
  | nil :
      StringText [] []
  | char {text content : Text} (c : Char) (hquote : c ≠ '"') (hescape : c ≠ '\\')
      (h : StringText text content) :
      StringText (c :: text) (c :: content)
  | escape {text content : Text} {e c : Char} (hescape : (e, c) ∈ escapes)
      (h : StringText text content) :
      StringText (c :: text) ('\\' :: e :: content)
  | unicode {text content : Text} {a b c d : Char} {unicode : Nat}
      (hunicode : decodeUnicodeEscapeSequence a b c d = some unicode)
      (hsingle : isHighSurrogate unicode = false) (h : StringText text content) :
      StringText (codePointToUTF8 unicode ++ text) ('\\' :: 'u' :: a :: b :: c :: d :: content)
  | surrogates {text content : Text} {a b c d a' b' c' d' : Char} {unicode low : Nat}
      (hunicode : decodeUnicodeEscapeSequence a b c d = some unicode)
      (hpair : isHighSurrogate unicode = true)
      (hlow : decodeUnicodeEscapeSequence a' b' c' d' = some low) (h : StringText text content) :
      StringText (codePointToUTF8 (surrogatePair unicode low) ++ text)
        ('\\' :: 'u' :: a :: b :: c :: d :: '\\' :: 'u' :: a' :: b' :: c' :: d' :: content)

/-- The value of a number without a sign. -/
def unsigned (value : Nat) : Value :=
  if value ≤ Value.maxInt then .int (Int64.ofNat value) else .uint (UInt64.ofNat value)

/-- How an integer is written. -/
inductive NumberText : Value → Text → Prop
  | natural {digits : Text} (hne : digits ≠ []) (hdigits : digits.all Char.isDigit = true)
      (hmax : ofDigitChars 10 digits 0 ≤ Value.maxLargestUInt) :
      NumberText (unsigned (ofDigitChars 10 digits 0)) digits
  | negative {digits : Text} (hne : digits ≠ []) (hdigits : digits.all Char.isDigit = true)
      (hmax : ofDigitChars 10 digits 0 ≤ Value.maxLargestInt + 1) :
      NumberText (.int (Int64.ofInt (-ofDigitChars 10 digits 0))) ('-' :: digits)

mutual

inductive ValueText : Value → Text → Nat → Prop
  | null :
      ValueText .null ['n', 'u', 'l', 'l'] 1
  | trueText :
      ValueText (.boolean true) ['t', 'r', 'u', 'e'] 1
  | falseText :
      ValueText (.boolean false) ['f', 'a', 'l', 's', 'e'] 1
  | number {v : Value} {text : Text} (h : NumberText v text) :
      ValueText v text 1
  | string {text content : Text} (h : StringText text content) :
      ValueText (.string text) ('"' :: (content ++ ['"'])) 1
  | emptyArray {blank : Text} (hblank : Blank blank) :
      ValueText (.array []) ('[' :: (blank ++ [']'])) 1
  | array {list : List Value} {text : Text} {n : Nat} (h : ElementsText list text n) :
      ValueText (.array list) ('[' :: (text ++ [']'])) (n + 1)
  | emptyObject {blank : Text} (hblank : Blank blank) :
      ValueText (.object []) ('{' :: (blank ++ ['}'])) 1
  | object {members : Members} {text : Text} {n : Nat} (h : MembersText members text n) :
      ValueText (.object (OrderedMap.insertAll [] members)) ('{' :: (text ++ ['}'])) (n + 1)

inductive ElementsText : List Value → Text → Nat → Prop
  | single {v : Value} {front text back : Text} {n : Nat} (hfront : Blank front)
      (h : ValueText v text n) (hback : Blank back) :
      ElementsText [v] (front ++ (text ++ back)) n
  | cons {v : Value} {list : List Value} {front text back texts : Text} {n m : Nat}
      (hfront : Blank front) (h : ValueText v text n) (hback : Blank back)
      (hlist : ElementsText list texts m) :
      ElementsText (v :: list) (front ++ (text ++ (back ++ ',' :: texts))) (max n m)

inductive MemberText : Text × Value → Text → Nat → Prop
  | mk {name content : Text} {v : Value} {front middle front' text back : Text} {n : Nat}
      (hfront : Blank front) (hname : StringText name content) (hmiddle : Blank middle)
      (hfront' : Blank front') (h : ValueText v text n) (hback : Blank back) :
      MemberText (name, v)
        (front ++ '"' :: (content ++ '"' :: (middle ++ ':' :: (front' ++ (text ++ back))))) n

inductive MembersText : Members → Text → Nat → Prop
  | single {m : Text × Value} {text : Text} {n : Nat} (h : MemberText m text n) :
      MembersText [m] text n
  | cons {m : Text × Value} {members : Members} {text texts : Text} {n k : Nat}
      (h : MemberText m text n) (hmembers : MembersText members texts k) :
      MembersText (m :: members) (text ++ ',' :: texts) (max n k)

end

theorem blank_nil :
    Blank [] :=
  fun _ hc => absurd hc List.not_mem_nil

section Tokens

variable {blank text content rest : Text}

theorem skipSpaces_append
    (hblank : Blank blank)
    (text : Text) :
    skipSpaces (blank ++ text) = skipSpaces text := by
  unfold skipSpaces
  rw [List.dropWhile_append_of_pos hblank]

theorem skipSpaces_cons
    {c : Char}
    (hspace : isSpace c = false)
    (text : Text) :
    skipSpaces (c :: text) = c :: text := by
  unfold skipSpaces
  rw [List.dropWhile_cons_of_neg (by simp [hspace])]

theorem readToken_append
    (hblank : Blank blank)
    (text : Text) :
    readToken (blank ++ text) = readToken text := by
  unfold readToken
  rw [skipSpaces_append hblank]

/-- No comment is in front. -/
theorem nextToken_eq
    (h : (readToken text).1 ≠ .comment) :
    nextToken text = readToken text := by
  unfold nextToken
  cases text with
  | nil => rfl
  | cons c text =>
      rw [List.length_cons, skipCommentTokens]
      split
      · rename_i hcomment
        exact absurd (by rw [hcomment]) h
      · rename_i token rest hne htoken
        exact htoken.symm

/-- The token behind some blanks. -/
theorem nextToken_append
    {token : Token}
    (hblank : Blank blank)
    (h : readToken text = (token, rest))
    (htoken : token ≠ .comment) :
    nextToken (blank ++ text) = (token, rest) := by
  rw [nextToken_eq, readToken_append hblank, h]
  rw [readToken_append hblank, h]
  exact htoken

end Tokens

section Strings

variable {text content : Text}

theorem readString_cons
    {c : Char}
    (hquote : c ≠ '"')
    (hescape : c ≠ '\\')
    (text : Text) :
    readString (c :: text) = (readString text).map fun r => (c :: r.1, r.2) := by
  rw [readString.eq_5 c text hquote (fun h _ => hescape h) (fun d rest h _ => hescape h)]

theorem readString_escape
    (c : Char) (text : Text) :
    readString ('\\' :: c :: text) =
      (readString text).map fun r => ('\\' :: c :: r.1, r.2) := by
  rw [readString]

/-- A hexadecimal digit neither ends a string nor starts an escape. -/
theorem hexDigit_ne
    {c : Char} {n : Nat}
    (h : hexDigit c = some n) :
    c ≠ '"' ∧ c ≠ '\\' := by
  constructor
  · rintro rfl
    cases h
  · rintro rfl
    cases h

/-- The digits of an escape are read as they are. -/
theorem readString_digits
    {a b c d : Char} {unicode : Nat}
    (h : decodeUnicodeEscapeSequence a b c d = some unicode)
    (text : Text) :
    readString ('\\' :: 'u' :: a :: b :: c :: d :: text) =
      (readString text).map fun r => ('\\' :: 'u' :: a :: b :: c :: d :: r.1, r.2) := by
  simp only [decodeUnicodeEscapeSequence, Option.bind_eq_bind, Option.bind_eq_some_iff] at h
  obtain ⟨_, ha, _, hb, _, hc, _, hd, -⟩ := h
  rw [readString_escape, readString_cons (hexDigit_ne ha).1 (hexDigit_ne ha).2,
    readString_cons (hexDigit_ne hb).1 (hexDigit_ne hb).2,
    readString_cons (hexDigit_ne hc).1 (hexDigit_ne hc).2,
    readString_cons (hexDigit_ne hd).1 (hexDigit_ne hd).2]
  cases readString text <;> rfl

/-- A string ends with the first quote that is not part of an escape. -/
theorem StringText.readString
    (h : StringText text content)
    (rest : Text) :
    Reader.readString (content ++ '"' :: rest) = some (content, rest) := by
  induction h with
  | nil => rfl
  | char c hquote hescape h ih =>
      rw [List.cons_append, readString_cons hquote hescape, ih]
      rfl
  | escape hescape h ih =>
      rw [List.cons_append, List.cons_append, readString_escape, ih]
      rfl
  | unicode hunicode hsingle h ih =>
      simp only [List.cons_append]
      rw [readString_digits hunicode, ih]
      rfl
  | surrogates hunicode hpair hlow h ih =>
      simp only [List.cons_append]
      rw [readString_digits hunicode, readString_digits hlow, ih]
      rfl

theorem decodeString_cons
    {c : Char}
    (hquote : c ≠ '"')
    (hescape : c ≠ '\\')
    (text : Text) :
    decodeString (c :: text) = (decodeString text).map (c :: ·) := by
  rw [decodeString] <;> simp_all

/-- The escapes of one letter. -/
theorem decodeString_escape
    {e c : Char}
    (h : (e, c) ∈ escapes)
    (text : Text) :
    decodeString ('\\' :: e :: text) = (decodeString text).map (c :: ·) := by
  simp only [escapes, List.mem_cons, List.not_mem_nil, or_false, Prod.mk.injEq] at h
  rcases h with ⟨rfl, rfl⟩ | ⟨rfl, rfl⟩ | ⟨rfl, rfl⟩ | ⟨rfl, rfl⟩ | ⟨rfl, rfl⟩ | ⟨rfl, rfl⟩ |
    ⟨rfl, rfl⟩ | ⟨rfl, rfl⟩ <;> rfl

/-- A text that is written as a string is decoded. -/
theorem StringText.decodeString
    (h : StringText text content) :
    Reader.decodeString content = some text := by
  induction h with
  | nil => rfl
  | char c hquote hescape h ih =>
      rw [decodeString_cons hquote hescape, ih]
      rfl
  | escape hescape h ih =>
      rw [decodeString_escape hescape, ih]
      rfl
  | unicode hunicode hsingle h ih =>
      simp [Reader.decodeString, hunicode, hsingle, ih]
  | surrogates hunicode hpair hlow h ih =>
      simp [Reader.decodeString, hunicode, hpair, hlow, ih]

/-- The token of a string ends at its closing quote. -/
theorem readToken_string
    (h : StringText text content)
    (rest : Text) :
    readToken ('"' :: (content ++ '"' :: rest)) = (.string content, rest) := by
  rw [readToken, skipSpaces_cons rfl]
  simp only [h.readString]

end Strings

section Numbers

variable {v : Value} {text digits rest : Text}

/-- A character that is read as a part of the number in front of it. -/
def continuesNumber (c : Char) : Bool :=
  c.isDigit || c = '.' || c = 'e' || c = 'E'

/-- A text that a number may stand in front of. -/
def EndsNumber (rest : Text) : Prop :=
  ∀ c ∈ rest.head?, continuesNumber c = false

theorem readNumber_append
    (hdigits : digits.all Char.isDigit = true)
    (hrest : EndsNumber rest) :
    readNumber (digits ++ rest) = (digits, rest) := by
  have hall := List.all_eq_true.mp hdigits
  unfold readNumber
  rw [List.takeWhile_append_of_pos hall, List.dropWhile_append_of_pos hall]
  cases rest with
  | nil => simp
  | cons c rest =>
      have hc := hrest c rfl
      simp only [continuesNumber, Bool.or_eq_false_iff, decide_eq_false_iff_not] at hc
      obtain ⟨⟨⟨hdigit, hdot⟩, he⟩, hE⟩ := hc
      rw [List.takeWhile_cons_of_neg (by simp [hdigit]),
        List.dropWhile_cons_of_neg (by simp [hdigit])]
      cases rest <;> simp [hdot, he, hE]

/-- The value of the digits only grows. -/
theorem le_ofDigitChars
    (l : Text) (value : Nat) :
    value ≤ ofDigitChars 10 l value := by
  induction l generalizing value with
  | nil => exact Nat.le_refl _
  | cons c l ih =>
      rw [Nat.ofDigitChars_cons]
      exact (by omega : value ≤ _).trans (ih _)

/-- A number that is not too large is not taken for a double. -/
theorem decodeDigits_eq
    {maxIntegerValue : Nat}
    (hmax : 10 ≤ maxIntegerValue)
    (hdigits : digits.all Char.isDigit = true)
    (value : Nat)
    (hle : ofDigitChars 10 digits value ≤ maxIntegerValue) :
    decodeDigits maxIntegerValue value digits = some (ofDigitChars 10 digits value) := by
  induction digits generalizing value with
  | nil => rfl
  | cons c digits ih =>
      rw [List.all_cons, Bool.and_eq_true] at hdigits
      rw [Nat.ofDigitChars_cons] at hle ⊢
      have hnext := le_ofDigitChars digits (10 * value + (c.toNat - '0'.toNat))
      have hlong : digits ≠ [] →
          10 * (10 * value + (c.toNat - '0'.toNat)) ≤
            ofDigitChars 10 digits (10 * value + (c.toNat - '0'.toNat)) := by
        intro hne
        obtain ⟨c', digits', rfl⟩ := List.exists_cons_of_ne_nil hne
        rw [Nat.ofDigitChars_cons]
        exact (Nat.le_add_right _ _).trans (le_ofDigitChars digits' _)
      have hfits : (maxIntegerValue / 10 ≤ value && (maxIntegerValue / 10 < value ||
          !digits.isEmpty || maxIntegerValue % 10 < c.toNat - '0'.toNat)) = false := by
        rw [Bool.and_eq_false_imp]
        intro hthreshold
        have hthreshold' := of_decide_eq_true hthreshold
        simp only [Bool.or_eq_false_iff, decide_eq_false_iff_not, Bool.not_eq_false',
          List.isEmpty_iff]
        refine ⟨⟨by omega, ?_⟩, by omega⟩
        by_contra hne
        have := hlong hne
        omega
      rw [decodeDigits, hdigits.1]
      simp only [hfits]
      rw [Nat.mul_comm value 10]
      exact ih hdigits.2 _ hle

theorem mem_digits
    {c : Char}
    (hc : c.isDigit = true) :
    c ∈ ['0', '1', '2', '3', '4', '5', '6', '7', '8', '9'] := by
  have hrange : 48 ≤ c.toNat ∧ c.toNat ≤ 57 := Char.isDigit_iff_toNat.mp hc
  have hmem : c.toNat ∈ List.range' 48 10 := by
    rw [List.mem_range'_1]
    omega
  rw [← Char.ofNat_toNat c]
  exact List.mem_map_of_mem hmem

/-- A text that is written as a number is decoded. -/
theorem NumberText.decodeNumber
    (h : NumberText v text) :
    Reader.decodeNumber text = .ok v := by
  cases h with
  | natural hne hdigits hmax =>
      unfold Reader.decodeNumber
      split
      · cases hdigits
      · rw [decodeDigits_eq (by decide) hdigits 0 hmax, unsigned]
        dsimp only
        split <;> rfl
  | @negative digits hne hdigits hmax =>
      rw [Reader.decodeNumber, decodeDigits_eq (by decide) hdigits 0 hmax]
      dsimp only
      split
      · rename_i hmin
        rw [hmin]
        rfl
      · rfl

theorem readToken_digit
    {c : Char}
    (hc : c.isDigit = true)
    (text : Text) :
    Reader.readToken (c :: text) =
      (.number (c :: (readNumber text).1), (readNumber text).2) := by
  have hmem := mem_digits hc
  simp only [List.mem_cons, List.not_mem_nil, or_false] at hmem
  rcases hmem with rfl | rfl | rfl | rfl | rfl | rfl | rfl | rfl | rfl | rfl <;> rfl

theorem NumberText.readToken
    (h : NumberText v text)
    (hrest : EndsNumber rest) :
    Reader.readToken (text ++ rest) = (.number text, rest) := by
  cases h with
  | natural hne hdigits hmax =>
      obtain ⟨c, digits, rfl⟩ := List.exists_cons_of_ne_nil hne
      rw [List.all_cons, Bool.and_eq_true] at hdigits
      rw [List.cons_append, readToken_digit hdigits.1, readNumber_append hdigits.2 hrest]
  | @negative digits hne hdigits hmax =>
      show (Token.number ('-' :: (readNumber (digits ++ rest)).1),
        (readNumber (digits ++ rest)).2) = _
      rw [readNumber_append hdigits hrest]

end Numbers

section Values

variable {v : Value} {list : List Value} {m : Text × Value} {new : Members}
  {text rest : Text} {n d : Nat}

/-- What is behind a value: after a number nothing that might be a part of it. -/
def Ends (v : Value) (rest : Text) : Prop :=
  match v with
  | .int _ => EndsNumber rest
  | .uint _ => EndsNumber rest
  | _ => True

/-- A character that does not continue a number ends every value. -/
theorem ends_append
    {blank : Text} {c : Char}
    (hblank : Blank blank)
    (hc : continuesNumber c = false)
    (v : Value) (rest : Text) :
    Ends v (blank ++ c :: rest) := by
  have hends : EndsNumber (blank ++ c :: rest) := by
    cases blank with
    | nil =>
        rintro _ ⟨⟩
        exact hc
    | cons b blank =>
        rintro _ ⟨⟩
        have hb := hblank b List.mem_cons_self
        simp only [isSpace, Bool.or_eq_true, decide_eq_true_eq] at hb
        rcases hb with ((rfl | rfl) | rfl) | rfl <;> rfl
  cases v <;> first | exact hends | trivial

theorem NumberText.endsNumber
    (h : NumberText v text)
    (hends : Ends v rest) :
    EndsNumber rest := by
  cases h with
  | @natural digits hne hdigits hmax =>
      unfold unsigned at hends
      split at hends <;> exact hends
  | negative hne hdigits hmax => exact hends

/-- readValue at some depth, for all that is written there. -/
def ReadsTo (d : Nat) : Prop :=
  ∀ {v text n blank rest}, Blank blank → ValueText v text n → Ends v rest →
    readValue d (blank ++ (text ++ rest)) = if n ≤ d then .ok (v, rest) else .error .stackLimit

theorem ValueText.pos
    (h : ValueText v text n) :
    0 < n := by
  cases h <;> exact Nat.succ_pos _

/-- No value is written as nothing. -/
theorem ValueText.length_pos
    (h : ValueText v text n) :
    0 < text.length := by
  cases h with
  | number h =>
      cases h with
      | natural hne hdigits hmax => exact List.length_pos_iff.mpr hne
      | negative hne hdigits hmax => exact Nat.succ_pos _
  | _ => exact Nat.succ_pos _

theorem readsTo_zero :
    ReadsTo 0 := by
  intro v text n blank rest hblank h hends
  rw [if_neg (Nat.not_le_of_lt h.pos)]
  rfl

/-- The elements, and the bracket behind them. -/
theorem readElements_text
    (hread : ReadsTo d)
    {list : List Value} {text : Text} {n : Nat}
    (h : ElementsText list text n)
    {fuel : Nat}
    (hfuel : list.length ≤ fuel)
    (rest : Text) :
    readElements (readValue d) fuel (text ++ ']' :: rest) =
      if n ≤ d then .ok (list, rest) else .error .stackLimit := by
  obtain ⟨fuel, rfl⟩ : ∃ k, fuel = k + 1 := by
    cases h <;> exact ⟨fuel - 1, by simp at hfuel; omega⟩
  cases h with
  | single hfront h hback =>
      have htoken : nextToken (_ ++ ']' :: rest) = (.arrayEnd, rest) :=
        nextToken_append hback rfl Token.noConfusion
      rw [readElements]
      simp only [List.append_assoc]
      rw [hread hfront h (ends_append hback rfl _ _)]
      by_cases hn : n ≤ d
      · simp [hn, bind, Except.bind, htoken, pure, Except.pure]
      · simp [hn, bind, Except.bind]
  | @cons _ list _ _ back texts k m hfront h hback hlist =>
      have ih := readElements_text hread hlist (show list.length ≤ fuel by simpa using hfuel) rest
      have htoken : nextToken (back ++ ',' :: (texts ++ ']' :: rest)) =
          (.arraySeparator, texts ++ ']' :: rest) :=
        nextToken_append hback rfl Token.noConfusion
      rw [readElements]
      simp only [List.append_assoc, List.cons_append]
      rw [hread hfront h (ends_append hback rfl _ _)]
      by_cases hk : k ≤ d
      · by_cases hm : m ≤ d
        · simp [hk, hm, bind, Except.bind, htoken, pure, Except.pure, ih]
        · simp [hk, hm, bind, Except.bind, htoken, ih]
      · simp [hk, bind, Except.bind]

/-- The length of the text bounds the rounds over the elements. -/
theorem ElementsText.length_le
    {list : List Value} {text : Text} {n : Nat}
    (h : ElementsText list text n) :
    list.length ≤ text.length := by
  cases h with
  | single hfront h hback =>
      have hpos := h.length_pos
      simp only [List.length_append, List.length_cons, List.length_nil]
      omega
  | cons hfront h hback hlist =>
      have hlength := hlist.length_le
      have hpos := h.length_pos
      simp only [List.length_append, List.length_cons]
      omega

/-- A member of an object, up to the blanks behind it. -/
theorem readMember_text
    (hread : ReadsTo d)
    (h : MemberText m text n)
    {c : Char}
    (hc : continuesNumber c = false)
    (rest : Text) :
    ∃ back, Blank back ∧ readMember (readValue d) (text ++ c :: rest) =
      if n ≤ d then .ok (m, back ++ c :: rest) else .error .stackLimit := by
  cases h with
  | @mk name content v front middle front' text back n hfront hname hmiddle hfront' h hback =>
      refine ⟨back, hback, ?_⟩
      have hstring := nextToken_append hfront
        (readToken_string hname (middle ++ ':' :: (front' ++ (text ++ (back ++ c :: rest)))))
        (by simp)
      have hcolon : readToken (middle ++ ':' :: (front' ++ (text ++ (back ++ c :: rest)))) =
          (.memberSeparator, front' ++ (text ++ (back ++ c :: rest))) :=
        readToken_append hmiddle _
      simp only [readMember, List.append_assoc, List.cons_append, hstring, hname.decodeString,
        hcolon]
      rw [hread hfront' h (ends_append hback hc _ _)]
      split <;> rfl

/-- The first token of a member is its name. -/
theorem MemberText.front
    (h : MemberText m text n)
    (rest : Text) :
    ∃ content rest', nextToken (text ++ rest) = (.string content, rest') := by
  cases h with
  | @mk name content v front middle front' text back n hfront hname hmiddle hfront' h hback =>
      have hstring := nextToken_append hfront
        (readToken_string hname (middle ++ ':' :: (front' ++ (text ++ (back ++ rest)))))
        (by simp)
      refine ⟨content, middle ++ ':' :: (front' ++ (text ++ (back ++ rest))), ?_⟩
      simp only [List.append_assoc, List.cons_append]
      exact hstring

/-- The members, and the brace behind them. -/
theorem readMembers_text
    (hread : ReadsTo d)
    {new : Members} {text : Text} {n : Nat}
    (h : MembersText new text n)
    {fuel : Nat}
    (hfuel : new.length ≤ fuel)
    (name : Text) (members : Members) (rest : Text) :
    readMembers (readValue d) fuel name members (text ++ '}' :: rest) =
      if n ≤ d then .ok (OrderedMap.insertAll members new, rest) else .error .stackLimit := by
  obtain ⟨fuel, rfl⟩ : ∃ k, fuel = k + 1 := by
    cases h <;> exact ⟨fuel - 1, by simp at hfuel; omega⟩
  cases h with
  | single h =>
      obtain ⟨content, rest', hfront⟩ := h.front ('}' :: rest)
      obtain ⟨back, hback, hmember⟩ := readMember_text hread h (c := '}') rfl rest
      have hcomma : readComma (back ++ '}' :: rest) = .ok (false, rest) := by
        rw [readComma, readToken_append hback]
        rfl
      rw [readMembers, hfront, hmember]
      by_cases hn : n ≤ d
      · simp [hn, bind, Except.bind, hcomma, pure, Except.pure, OrderedMap.insertAll, Value.insert]
      · simp [hn, bind, Except.bind]
  | @cons m members' text texts k l h hmembers =>
      have hfuel' : members'.length ≤ fuel := by
        simpa using hfuel
      have ih := readMembers_text hread hmembers hfuel' m.1 (Value.insert m.1 m.2 members) rest
      obtain ⟨content, rest', hfront⟩ := h.front (',' :: (texts ++ '}' :: rest))
      obtain ⟨back, hback, hmember⟩ :=
        readMember_text hread h (c := ',') rfl (texts ++ '}' :: rest)
      have hcomma :
          readComma (back ++ ',' :: (texts ++ '}' :: rest)) = .ok (true, texts ++ '}' :: rest) := by
        rw [readComma, readToken_append hback]
        rfl
      have hall : OrderedMap.insertAll members (m :: members') =
          OrderedMap.insertAll (Value.insert m.1 m.2 members) members' :=
        rfl
      rw [List.append_assoc, List.cons_append, readMembers, hfront, hmember, hall]
      by_cases hk : k ≤ d
      · by_cases hl : l ≤ d
        · simp [hk, hl, bind, Except.bind, hcomma, ih]
        · simp [hk, hl, bind, Except.bind, hcomma, ih]
      · simp [hk, bind, Except.bind]

theorem MemberText.length_pos
    (h : MemberText m text n) :
    0 < text.length := by
  cases h with
  | mk hfront hname hmiddle hfront' h hback =>
      rw [List.length_append, List.length_cons]
      omega

theorem MembersText.length_le
    {new : Members} {text : Text} {n : Nat}
    (h : MembersText new text n) :
    new.length ≤ text.length := by
  cases h with
  | single h => exact h.length_pos
  | cons h hmembers =>
      have hlength := hmembers.length_le
      have hpos := h.length_pos
      simp only [List.length_append, List.length_cons]
      omega

/-- What a value begins with is not skipped, and not taken for the end of an array. -/
theorem ValueText.front
    (h : ValueText v text n) :
    ∃ c text', text = c :: text' ∧ isSpace c = false ∧ c ≠ ']' := by
  cases h with
  | number h =>
      cases h with
      | natural hne hdigits hmax =>
          obtain ⟨c, digits, rfl⟩ := List.exists_cons_of_ne_nil hne
          rw [List.all_cons, Bool.and_eq_true] at hdigits
          have hmem := mem_digits hdigits.1
          refine ⟨c, digits, rfl, ?_⟩
          simp only [List.mem_cons, List.not_mem_nil, or_false] at hmem
          rcases hmem with rfl | rfl | rfl | rfl | rfl | rfl | rfl | rfl | rfl | rfl <;>
            exact ⟨rfl, by simp⟩
      | negative hne hdigits hmax => exact ⟨_, _, rfl, rfl, by simp⟩
  | _ => exact ⟨_, _, rfl, rfl, by simp⟩

/-- The blanks that readArray skips are not missed. -/
theorem ElementsText.skipSpaces
    (h : ElementsText list text n)
    (rest : Text) :
    ∃ c text', Reader.skipSpaces (text ++ rest) = c :: (text' ++ rest) ∧ c ≠ ']' ∧
      ElementsText list (c :: text') n := by
  cases h with
  | @single v front text back n hfront h hback =>
      obtain ⟨c, text, rfl, hspace, hc⟩ := h.front
      refine ⟨c, text ++ back, ?_, hc, @ElementsText.single _ [] _ _ _ blank_nil h hback⟩
      simp only [List.append_assoc, List.cons_append]
      rw [skipSpaces_append hfront, skipSpaces_cons hspace]
  | @cons v list front text back texts n m hfront h hback hlist =>
      obtain ⟨c, text, rfl, hspace, hc⟩ := h.front
      refine ⟨c, text ++ (back ++ ',' :: texts), ?_, hc,
        @ElementsText.cons _ _ [] _ _ _ _ _ blank_nil h hback hlist⟩
      simp only [List.append_assoc, List.cons_append]
      rw [skipSpaces_append hfront, skipSpaces_cons hspace]

/-- An array is read if its elements are not nested too deeply. -/
theorem readArray_text
    (hread : ReadsTo d)
    (h : ElementsText list text n)
    (rest : Text) :
    readArray (readValue d) (text ++ ']' :: rest) =
      if n ≤ d then .ok (.array list, rest) else .error .stackLimit := by
  obtain ⟨c, text', hskip, hc, h'⟩ := h.skipSpaces (']' :: rest)
  have hfuel : list.length ≤ (c :: (text' ++ ']' :: rest)).length + 1 := by
    have := h'.length_le
    simp only [List.length_append, List.length_cons] at this ⊢
    omega
  have helements := readElements_text hread h' hfuel rest
  unfold readArray
  rw [hskip]
  split
  · simp_all
  · rw [List.cons_append] at helements
    simp only [helements]
    split <;> rfl

/-- An object is read if its members are not nested too deeply; later members replace earlier ones
of the same name. -/
theorem readObject_text
    (hread : ReadsTo d)
    (h : MembersText new text n)
    (rest : Text) :
    readObject (readValue d) (text ++ '}' :: rest) =
      if n ≤ d then .ok (.object (OrderedMap.insertAll [] new), rest) else .error .stackLimit := by
  have hfuel : new.length ≤ (text ++ '}' :: rest).length + 1 := by
    have := h.length_le
    rw [List.length_append]
    omega
  unfold readObject
  rw [readMembers_text hread h hfuel]
  split <;> rfl

theorem readArray_empty
    {blank : Text}
    (hblank : Blank blank)
    (rest : Text) :
    readArray (readValue d) (blank ++ ']' :: rest) = .ok (.array [], rest) := by
  unfold readArray
  rw [skipSpaces_append hblank]
  rfl

theorem readObject_empty
    {blank : Text}
    (hblank : Blank blank)
    (rest : Text) :
    readObject (readValue d) (blank ++ '}' :: rest) = .ok (.object [], rest) := by
  have htoken : nextToken (blank ++ '}' :: rest) = (.objectEnd, rest) :=
    nextToken_append hblank rfl Token.noConfusion
  unfold readObject
  rw [readMembers, htoken]
  rfl

/-- One level of nesting. -/
theorem readsTo_succ
    (hread : ReadsTo d) :
    ReadsTo (d + 1) := by
  intro v text n blank rest hblank h hends
  cases h with
  | null =>
      have htoken : nextToken (blank ++ 'n' :: 'u' :: 'l' :: 'l' :: rest) = (.null, rest) :=
        nextToken_append hblank rfl Token.noConfusion
      simp [readValue, htoken]
  | trueText =>
      have htoken : nextToken (blank ++ 't' :: 'r' :: 'u' :: 'e' :: rest) = (.true, rest) :=
        nextToken_append hblank rfl Token.noConfusion
      simp [readValue, htoken]
  | falseText =>
      have htoken : nextToken (blank ++ 'f' :: 'a' :: 'l' :: 's' :: 'e' :: rest) = (.false, rest) :=
        nextToken_append hblank rfl Token.noConfusion
      simp [readValue, htoken]
  | number h =>
      have htoken := nextToken_append hblank (h.readToken (h.endsNumber hends)) Token.noConfusion
      simp [readValue, htoken, h.decodeNumber]
  | string h =>
      have htoken := nextToken_append hblank (readToken_string h rest) Token.noConfusion
      simp [readValue, htoken, h.decodeString]
  | @emptyArray blank' hblank' =>
      have htoken : nextToken (blank ++ '[' :: (blank' ++ ']' :: rest)) =
          (.arrayBegin, blank' ++ ']' :: rest) :=
        nextToken_append hblank rfl Token.noConfusion
      simp [readValue, htoken, readArray_empty hblank']
  | @array list text n h =>
      have htoken : nextToken (blank ++ '[' :: (text ++ ']' :: rest)) =
          (.arrayBegin, text ++ ']' :: rest) :=
        nextToken_append hblank rfl Token.noConfusion
      simp [readValue, htoken, readArray_text hread h]
  | @emptyObject blank' hblank' =>
      have htoken : nextToken (blank ++ '{' :: (blank' ++ '}' :: rest)) =
          (.objectBegin, blank' ++ '}' :: rest) :=
        nextToken_append hblank rfl Token.noConfusion
      simp [readValue, htoken, readObject_empty hblank']
  | @object members text n h =>
      have htoken : nextToken (blank ++ '{' :: (text ++ '}' :: rest)) =
          (.objectBegin, text ++ '}' :: rest) :=
        nextToken_append hblank rfl Token.noConfusion
      simp [readValue, htoken, readObject_text hread h]

/-- Every text of a value is read. By induction on the depth of the calls. -/
theorem readsTo
    (d : Nat) :
    ReadsTo d := by
  induction d with
  | zero => exact readsTo_zero
  | succ d ih => exact readsTo_succ ih

/-- A text for a value is read as that value, with whatever is behind it, unless it is nested
deeper than the reader goes. -/
theorem parse_text
    {blank : Text}
    (hblank : Blank blank)
    (h : ValueText v text n)
    (spare : Text)
    (hends : Ends v (rest ++ spare)) :
    parse (blank ++ (text ++ rest)) spare =
      if n ≤ stackLimit then .ok v else .error .stackLimit := by
  unfold parse
  rw [List.append_assoc, List.append_assoc, readsTo stackLimit hblank h hends]
  split <;> rfl

end Values

end Json
end Gamnet
