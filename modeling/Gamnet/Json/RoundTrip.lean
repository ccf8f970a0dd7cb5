import Gamnet.Json.StyledWriter

/-!
# What is written and read

The writer writes a text for the value that `readBack` gives: an unsigned int that fits into an
int is read as one, and a name ends at its first zero byte.
-/

namespace Gamnet
namespace Json

open Nat (toDigits ofDigitChars)
open Reader

mutual

/-- The value that the text for a value is read as. -/
def readBack : Value → Value
  | .int n => if 0 ≤ n then unsigned n.toInt.toNat else .int n
  | .uint n => unsigned n.toNat
  | .array list => .array (readBacks list)
  | .object members => .object (OrderedMap.insertAll [] (readBackMembers members))
  | v => v

def readBacks : List Value → List Value
  | [] => []
  | v :: list => readBack v :: readBacks list

def readBackMembers : Members → Members
  | [] => []
  | m :: members => readBackMember m :: readBackMembers members

def readBackMember : Text × Value → Text × Value
  | (name, v) => (name.takeWhile (· ≠ '\x00'), readBack v)

end

section Quotes

variable {isControl : Char → Bool} {text content : Text}

/-- The four digits of a control character are decoded. -/
theorem decode_hexDigits :
    ∀ n < 0x20, decodeUnicodeEscapeSequence (n / 16 ^ 3 % 16).digitChar.toUpper
      (n / 16 ^ 2 % 16).digitChar.toUpper (n / 16 % 16).digitChar.toUpper
      (n % 16).digitChar.toUpper = some n := by
  decide

theorem ne_of_not_escaped
    {c : Char}
    (h : writtenEscapes.lookup c = none) :
    c ≠ '"' ∧ c ≠ '\\' := by
  constructor
  · rintro rfl
    cases h
  · rintro rfl
    cases h

/-- Every escape that the writer makes is one of the reader. -/
theorem mem_escapes
    {c e : Char}
    (h : writtenEscapes.lookup c = some e) :
    (e, c) ∈ escapes := by
  obtain ⟨_, _, hlist, -⟩ := List.lookup_eq_some_iff.mp h
  have hmem : (c, e) ∈ writtenEscapes := by
    rw [hlist]
    exact List.mem_append_right _ List.mem_cons_self
  have hall : ∀ p ∈ writtenEscapes, (p.2, p.1) ∈ escapes := by
    decide
  exact hall _ hmem

/-- A character is read as it was written. -/
theorem escapeChar_text
    (hcontrol : ∀ c, isControl c = true → c.toNat < 0x20)
    (c : Char)
    (h : StringText text content) :
    StringText (c :: text) (escapeChar isControl c ++ content) := by
  unfold escapeChar
  split
  · rename_i e he
    exact .escape (mem_escapes he) h
  · rename_i he
    split
    · rename_i hc
      have hlt := hcontrol c hc
      have hunicode := decode_hexDigits c.toNat hlt
      have hsingle : isHighSurrogate c.toNat = false := by
        unfold isHighSurrogate
        simp
        omega
      have htext := StringText.unicode hunicode hsingle h
      have hpoint : codePointToUTF8 c.toNat = [c] := by
        rw [codePointToUTF8, if_pos (by omega), Char.ofNat_toNat]
      rwa [hpoint] at htext
    · exact .char c (ne_of_not_escaped he).1 (ne_of_not_escaped he).2 h

/-- Whatever the text is, its escapes are the text of a string. -/
theorem flatMap_escapeChar_text
    (hcontrol : ∀ c, isControl c = true → c.toNat < 0x20)
    (text : Text) :
    StringText text (text.flatMap (escapeChar isControl)) := by
  induction text with
  | nil => exact .nil
  | cons c text ih =>
      rw [List.flatMap_cons]
      exact escapeChar_text hcontrol c ih

theorem stringText_self
    (h : ∀ c ∈ text, c ≠ '"' ∧ c ≠ '\\') :
    StringText text text := by
  induction text with
  | nil => exact .nil
  | cons c text ih =>
      obtain ⟨hc, htext⟩ := List.forall_mem_cons.mp h
      exact .char c hc.1 hc.2 (ih htext)

theorem quoted_text
    (hcontrol : ∀ c, isControl c = true → c.toNat < 0x20)
    (text : Text) :
    ∃ content, quoted isControl text = '"' :: (content ++ ['"']) ∧ StringText text content := by
  unfold quoted
  split
  · rename_i h
    refine ⟨text, rfl, stringText_self fun c hc => ne_of_not_escaped ?_⟩
    simp only [Bool.and_eq_true, Bool.not_eq_true', List.any_eq_false] at h
    exact Option.not_isSome_iff_eq_none.mp (h.1 c hc)
  · exact ⟨_, rfl, flatMap_escapeChar_text hcontrol text⟩

/-- Control characters are below the blank. -/
theorem isControlCharacter_lt
    {c : Char}
    (h : isControlCharacter c = true) :
    c.toNat < 0x20 := by
  simp only [isControlCharacter, Bool.and_eq_true, decide_eq_true_eq] at h
  omega

/-- A string is quoted up to its length. -/
theorem valueToQuotedStringN_text
    (text : Text) :
    ∃ content, valueToQuotedStringN text = '"' :: (content ++ ['"']) ∧
      StringText text content := by
  refine quoted_text (fun c hc => ?_) text
  rcases Bool.or_eq_true _ _ ▸ hc with hc | hc
  · exact isControlCharacter_lt hc
  · rw [of_decide_eq_true hc]
    decide

/-- A name is quoted up to its first NUL. -/
theorem valueToQuotedString_text
    (name : Text) :
    ∃ content, valueToQuotedString name = '"' :: (content ++ ['"']) ∧
      StringText (name.takeWhile (· ≠ '\x00')) content :=
  quoted_text (fun _ => isControlCharacter_lt) _

end Quotes

section Numbers

theorem uintToString_text
    {n : Nat}
    (hn : n ≤ Value.maxLargestUInt) :
    NumberText (unsigned n) (uintToString n) := by
  have hvalue : ofDigitChars 10 (toDigits 10 n) 0 = n := Nat.ofDigitChars_ten_toDigits
  have htext := @NumberText.natural (toDigits 10 n) Nat.toDigits_ne_nil
    (List.all_eq_true.mpr fun c hc => Nat.isDigit_of_mem_toDigits (by decide) (by decide) hc)
    (hvalue.symm ▸ hn)
  rwa [hvalue] at htext

theorem negative_text
    {n : Nat}
    (hn : n ≤ Value.maxLargestInt + 1) :
    NumberText (.int (Int64.ofInt (-n))) ('-' :: uintToString n) := by
  have hvalue : ofDigitChars 10 (toDigits 10 n) 0 = n := Nat.ofDigitChars_ten_toDigits
  have htext := @NumberText.negative (toDigits 10 n) Nat.toDigits_ne_nil
    (List.all_eq_true.mpr fun c hc => Nat.isDigit_of_mem_toDigits (by decide) (by decide) hc)
    (hvalue.symm ▸ hn)
  rwa [hvalue] at htext

/-- The digits of a signed number, with its sign. -/
theorem intToString_text
    (n : Int64) :
    NumberText (readBack (.int n)) (intToString n) := by
  unfold intToString
  split
  · rename_i hmin
    rw [hmin]
    exact negative_text (Nat.le_refl _)
  · split
    · rename_i hneg
      have hlt : n.toInt < 0 := Int64.lt_iff_toInt_lt.mp hneg
      have hge : -2 ^ 63 ≤ n.toInt := n.le_toInt
      have hback : readBack (.int n) = .int (Int64.ofInt (-((-n.toInt).toNat : Int))) := by
        rw [readBack, if_neg (fun h => Int.not_le.mpr hlt (@Int64.le_iff_toInt_le 0 n |>.mp h)),
          Int.toNat_of_nonneg (by omega), Int.neg_neg, Int64.ofInt_toInt]
      rw [hback]
      exact negative_text (by unfold Value.maxLargestInt; omega)
    · rename_i hnonneg
      have hge : 0 ≤ n := Int64.le_iff_toInt_le.mpr
        (Int.not_lt.mp fun h => hnonneg (Int64.lt_iff_toInt_lt.mpr h))
      have hlt : n.toInt < 2 ^ 63 := n.toInt_lt
      rw [readBack, if_pos hge]
      exact uintToString_text (by unfold Value.maxLargestUInt; omega)

end Numbers

section Writing

open StyledWriter

variable {w w' w'' : StyledWriter} {v : Value} {list : List Value} {members : Members}
  {m : Text × Value} {text text' blank : Text} {n : Nat}

/-- A step of the writer that adds a text to the document. -/
structure Adds (w w' : StyledWriter) (text : Text) : Prop where
  document : w'.document = w.document ++ text
  indentString : w'.indentString = w.indentString
  addChildValues : w'.addChildValues = w.addChildValues

theorem adds_add
    (w : StyledWriter) (text : Text) :
    Adds w (w.add text) text :=
  ⟨rfl, rfl, rfl⟩

theorem Adds.trans
    (h : Adds w w' text)
    (h' : Adds w' w'' text') :
    Adds w w'' (text ++ text') where
  document := by rw [h'.document, h.document, List.append_assoc]
  indentString := h'.indentString.trans h.indentString
  addChildValues := h'.addChildValues.trans h.addChildValues

/-- The writer writes into the document, and indents with blanks. -/
structure Ready (w : StyledWriter) : Prop where
  indentString : Blank w.indentString
  addChildValues : w.addChildValues = false

/-- The indentation stays blank. -/
theorem Adds.ready
    (h : Adds w w' text)
    (hw : Ready w) :
    Ready w' where
  indentString := h.indentString ▸ hw.indentString
  addChildValues := h.addChildValues ▸ hw.addChildValues

theorem blank_append
    (h : Blank text)
    (h' : Blank text') :
    Blank (text ++ text') :=
  List.forall_mem_append.mpr ⟨h, h'⟩

/-- writeIndent adds blanks only. -/
theorem writeIndent_adds
    (hw : Ready w) :
    ∃ blank, Blank blank ∧ Adds w w.writeIndent blank := by
  unfold writeIndent
  split
  · exact ⟨_, hw.indentString, adds_add w _⟩
  · split
    · exact ⟨[], blank_nil, (List.append_nil _).symm, rfl, rfl⟩
    · split
      · exact ⟨_, hw.indentString, adds_add w _⟩
      · refine ⟨'\n' :: w.indentString, ?_, (adds_add w _).trans (adds_add _ _)⟩
        exact List.forall_mem_cons.mpr ⟨rfl, hw.indentString⟩

theorem writeWithIndent_adds
    (hw : Ready w)
    (value : Text) :
    ∃ blank, Blank blank ∧ Adds w (w.writeWithIndent value) (blank ++ value) := by
  obtain ⟨blank, hblank, hadds⟩ := writeIndent_adds hw
  exact ⟨blank, hblank, hadds.trans (adds_add _ value)⟩

theorem writeWithIndent_childValues
    (w : StyledWriter) (value : Text) :
    (w.writeWithIndent value).indent.childValues = w.childValues := by
  show w.writeIndent.childValues = _
  unfold writeIndent
  split
  · rfl
  · split
    · rfl
    · split <;> rfl

/-- What is written between indent and unindent. -/
theorem indented_adds
    (h : Adds w.indent w' text) :
    Adds w w'.unindent text where
  document := h.document
  indentString := by
    show w'.indentString.take (w'.indentString.length - indentSize) = _
    have hindent : w.indent.indentString = w.indentString ++ List.replicate indentSize ' ' := rfl
    rw [h.indentString, hindent, List.length_append, List.length_replicate, Nat.add_sub_cancel,
      List.take_left]
  addChildValues := h.addChildValues

theorem ready_indent
    (hw : Ready w) :
    Ready w.indent where
  indentString := blank_append hw.indentString fun c hc => by
    rw [List.eq_of_mem_replicate hc]
    rfl
  addChildValues := hw.addChildValues

/-- A value that is not an array or an object with elements is written at once. -/
theorem writeValue_plain
    (h : isFilled v = false) :
    ∃ text, ValueText (readBack v) text v.depth ∧ ∀ w, writeValue w v = w.pushValue text := by
  cases v with
  | null => exact ⟨_, .null, fun w => by rw [writeValue]⟩
  | int n => exact ⟨_, .number (intToString_text n), fun w => by rw [writeValue]⟩
  | uint n =>
      refine ⟨_, .number (uintToString_text ?_), fun w => by rw [writeValue]⟩
      exact Nat.le_of_lt_succ n.toNat_lt
  | string text =>
      obtain ⟨content, hquoted, htext⟩ := valueToQuotedStringN_text text
      exact ⟨_, .string htext, fun w => by rw [writeValue, hquoted]⟩
  | boolean b =>
      cases b with
      | false => exact ⟨_, .falseText, fun w => by rw [writeValue]; rfl⟩
      | true => exact ⟨_, .trueText, fun w => by rw [writeValue]; rfl⟩
  | array list =>
      cases list with
      | nil => exact ⟨_, .emptyArray blank_nil, fun w => by rw [writeValue]; rfl⟩
      | cons v list => cases h
  | object members =>
      cases members with
      | nil => exact ⟨_, .emptyObject blank_nil, fun w => by rw [writeValue]; rfl⟩
      | cons m members => cases h

/-- Blanks may follow the last element. -/
theorem ElementsText.append_blank
    {list : List Value} {text : Text} {n : Nat}
    (h : ElementsText list text n)
    (hblank : Blank blank) :
    ElementsText list (text ++ blank) n := by
  cases h with
  | single hfront h hback =>
      rw [List.append_assoc, List.append_assoc]
      exact .single hfront h (blank_append hback hblank)
  | cons hfront h hback hlist =>
      have hrest := hlist.append_blank hblank
      simp only [List.append_assoc, List.cons_append]
      exact .cons hfront h hback hrest

theorem MemberText.append_blank
    (h : MemberText m text n)
    (hblank : Blank blank) :
    MemberText m (text ++ blank) n := by
  cases h with
  | mk hfront hname hmiddle hfront' h hback =>
      simp only [List.append_assoc, List.cons_append]
      exact .mk hfront hname hmiddle hfront' h (blank_append hback hblank)

theorem MembersText.append_blank
    {members : Members} {text : Text} {n : Nat}
    (h : MembersText members text n)
    (hblank : Blank blank) :
    MembersText members (text ++ blank) n := by
  cases h with
  | single h => exact .single (h.append_blank hblank)
  | cons h hmembers =>
      have hrest := hmembers.append_blank hblank
      rw [List.append_assoc, List.cons_append]
      exact .cons h hrest

/-- What the writer has to do with a value that is not pushed at once. -/
def Writes (v : Value) : Prop :=
  ∀ w, Ready w → ∃ blank text, Blank blank ∧ ValueText (readBack v) text v.depth ∧
    Adds w (writeValue w v) (blank ++ text)

theorem writes_of_plain
    (h : isFilled v = false) :
    Writes v := by
  intro w hw
  obtain ⟨text, htext, hwrite⟩ := writeValue_plain h
  refine ⟨[], text, blank_nil, htext, ?_⟩
  rw [hwrite, pushValue, hw.addChildValues, List.nil_append]
  exact ⟨rfl, rfl, hw.addChildValues.symm⟩

/-- The values of a single line, and the line. -/
theorem writeValues_plain
    (h : ∀ v ∈ list, isFilled v = false)
    (w : StyledWriter)
    (hadd : w.addChildValues = true) :
    ∃ texts, List.Forall₂ (fun v text => ValueText (readBack v) text v.depth) list texts ∧
      writeValues w list = { w with childValues := w.childValues ++ texts } := by
  induction list generalizing w with
  | nil => exact ⟨[], .nil, by rw [writeValues, List.append_nil]⟩
  | cons v list ih =>
      obtain ⟨hv, hlist⟩ := List.forall_mem_cons.mp h
      obtain ⟨text, htext, hwrite⟩ := writeValue_plain hv
      obtain ⟨texts, htexts, hwrites⟩ :=
        ih hlist { w with childValues := w.childValues ++ [text] } hadd
      refine ⟨text :: texts, .cons htext htexts, ?_⟩
      rw [writeValues, hwrite, pushValue, if_pos hadd, hwrites, List.append_assoc]
      rfl

/-- Texts on one line, with commas and blanks between them. -/
theorem elementsText_intercalate
    {texts : List Text}
    (hne : list ≠ [])
    (h : List.Forall₂ (fun v text => ValueText (readBack v) text v.depth) list texts) :
    ElementsText (readBacks list) (' ' :: ([',', ' '].intercalate texts ++ [' ']))
      (Value.depths list) := by
  have hspace : Blank [' '] := by simp [Blank, isSpace]
  induction h with
  | nil => exact absurd rfl hne
  | @cons v text list texts hv hlist ih =>
      cases hlist with
      | nil =>
          have hdepth : Value.depths [v] = v.depth := by simp [Value.depths]
          rw [hdepth, List.intercalate_singleton]
          exact .single hspace hv hspace
      | @cons v' text' list texts hv' hlist =>
          have hrest := ih (List.cons_ne_nil _ _)
          rw [List.intercalate_cons_cons]
          have hall := ElementsText.cons hspace hv blank_nil hrest
          show ElementsText (readBack v :: readBacks (v' :: list)) _
            (max v.depth (Value.depths (v' :: list)))
          simpa using hall

/-- Texts on lines of their own. -/
theorem writeChildValues_adds
    {texts : List Text}
    (hw : Ready w)
    (hne : list ≠ [])
    (h : List.Forall₂ (fun v text => ValueText (readBack v) text v.depth) list texts) :
    ∃ text, ElementsText (readBacks list) text (Value.depths list) ∧
      Adds w (writeChildValues w texts) text := by
  induction h generalizing w with
  | nil => exact absurd rfl hne
  | @cons v text list texts hv hlist ih =>
      obtain ⟨blank, hblank, hadds⟩ := writeWithIndent_adds hw text
      cases hlist with
      | nil =>
          have hdepth : Value.depths [v] = v.depth := by simp [Value.depths]
          refine ⟨blank ++ (text ++ []), ?_, ?_⟩
          · rw [hdepth]
            exact .single hblank hv blank_nil
          · rw [List.append_nil]
            exact hadds
      | @cons v' text' list texts hv' hlist =>
          have hcomma := hadds.trans (adds_add _ [','])
          obtain ⟨rest, hrest, hadds'⟩ := ih (hcomma.ready hw) (List.cons_ne_nil _ _)
          refine ⟨_, .cons hblank hv blank_nil hrest, ?_⟩
          show Adds w (writeChildValues ((w.writeWithIndent text).add [',']) (text' :: texts)) _
          simpa using hcomma.trans hadds'

/-- The elements on lines of their own are the text of their list. -/
theorem writeElements_adds
    (hw : Ready w)
    (hne : list ≠ [])
    (h : ∀ v ∈ list, Writes v) :
    ∃ text, ElementsText (readBacks list) text (Value.depths list) ∧
      Adds w (writeElements w list) text := by
  induction list generalizing w with
  | nil => exact absurd rfl hne
  | cons v list ih =>
      obtain ⟨hv, hlist⟩ := List.forall_mem_cons.mp h
      obtain ⟨front, hfront, hindent⟩ := writeIndent_adds hw
      obtain ⟨blank, text, hblank, htext, hadds⟩ := hv _ (hindent.ready hw)
      have hvalue := hindent.trans hadds
      cases list with
      | nil =>
          have hdepth : Value.depths [v] = v.depth := by simp [Value.depths]
          refine ⟨(front ++ blank) ++ (text ++ []), ?_, ?_⟩
          · rw [hdepth]
            exact .single (blank_append hfront hblank) htext blank_nil
          · rw [List.append_nil, List.append_assoc]
            exact hvalue
      | cons v' list =>
          have hcomma := hvalue.trans (adds_add _ [','])
          obtain ⟨rest, hrest, hadds'⟩ := ih (hcomma.ready hw) (List.cons_ne_nil _ _) hlist
          refine ⟨_, .cons (blank_append hfront hblank) htext blank_nil hrest, ?_⟩
          show Adds w (writeElements ((writeValue w.writeIndent v).add [',']) (v' :: list)) _
          simpa using hcomma.trans hadds'

theorem writeMember_adds
    (hw : Ready w)
    (h : Writes m.2) :
    ∃ text, MemberText (readBackMember m) text (Value.memberDepth m) ∧
      Adds w (writeMember w m) text := by
  obtain ⟨name, v⟩ := m
  obtain ⟨content, hquoted, hname⟩ := valueToQuotedString_text name
  obtain ⟨front, hfront, hindent⟩ := writeWithIndent_adds hw (valueToQuotedString name)
  have hcolon := hindent.trans (adds_add _ [' ', ':', ' '])
  obtain ⟨blank, text, hblank, htext, hadds⟩ := h _ (hcolon.ready hw)
  have hspace : Blank [' '] := by simp [Blank, isSpace]
  refine ⟨_, .mk hfront hname hspace (blank_append hspace hblank) htext blank_nil, ?_⟩
  have := hcolon.trans hadds
  rw [hquoted] at this
  simpa [writeMember, hquoted] using this

/-- The members on lines of their own are the text of their map. -/
theorem writeMembers_adds
    (hw : Ready w)
    (hne : members ≠ [])
    (h : ∀ m ∈ members, Writes m.2) :
    ∃ text, MembersText (readBackMembers members) text (Value.memberDepths members) ∧
      Adds w (writeMembers w members) text := by
  induction members generalizing w with
  | nil => exact absurd rfl hne
  | cons m members ih =>
      obtain ⟨hm, hmembers⟩ := List.forall_mem_cons.mp h
      obtain ⟨text, htext, hadds⟩ := writeMember_adds hw hm
      cases members with
      | nil =>
          have hdepth : Value.memberDepths [m] = Value.memberDepth m := by
            simp [Value.memberDepths]
          exact ⟨text, hdepth ▸ .single htext, hadds⟩
      | cons m' members =>
          have hcomma := hadds.trans (adds_add _ [','])
          obtain ⟨rest, hrest, hadds'⟩ := ih (hcomma.ready hw) (List.cons_ne_nil _ _) hmembers
          refine ⟨_, .cons htext hrest, ?_⟩
          show Adds w (writeMembers ((writeMember w m).add [',']) (m' :: members)) _
          simpa using hcomma.trans hadds'

/-- What is written between two brackets, on lines of its own. -/
theorem enclosed_adds
    {P : Text → Prop}
    (hw : Ready w)
    (front back : Text)
    (h : Ready (w.writeWithIndent front).indent →
      ∃ text, P text ∧ Adds (w.writeWithIndent front).indent w' text) :
    ∃ blank text blank', Blank blank ∧ P text ∧ Blank blank' ∧
      Adds w (w'.unindent.writeWithIndent back)
        (blank ++ (front ++ (text ++ (blank' ++ back)))) := by
  obtain ⟨blank, hblank, hopen⟩ := writeWithIndent_adds hw front
  obtain ⟨text, htext, hadds⟩ := h (ready_indent (hopen.ready hw))
  have hinner := hopen.trans (indented_adds hadds)
  obtain ⟨blank', hblank', hclose⟩ := writeWithIndent_adds (hinner.ready hw) back
  refine ⟨blank, text, blank', hblank, htext, hblank', ?_⟩
  simpa using hinner.trans hclose

/-- isMultineArray leaves either nothing in childValues or a text for each element, and this is
what the single line is made of. -/
theorem isMultineArray_spec
    (hw : Ready w)
    (list : List Value) :
    Adds w (isMultineArray w list fun w => writeValues w list).2 [] ∧
      ((isMultineArray w list fun w => writeValues w list).1 = true ∧
          (isMultineArray w list fun w => writeValues w list).2.childValues = [] ∨
        List.Forall₂ (fun v text => ValueText (readBack v) text v.depth) list
          (isMultineArray w list fun w => writeValues w list).2.childValues) := by
  unfold isMultineArray
  dsimp only
  split
  · exact ⟨⟨(List.append_nil _).symm, rfl, rfl⟩, .inl ⟨rfl, rfl⟩⟩
  · rename_i hplain
    have hall : ∀ v ∈ list, isFilled v = false := by
      simp only [Bool.or_eq_true, not_or, List.any_eq_true, not_exists, not_and,
        Bool.not_eq_true] at hplain
      exact hplain.2
    obtain ⟨texts, htexts, hwrite⟩ := writeValues_plain hall
      { w with childValues := [], addChildValues := true } rfl
    rw [hwrite]
    exact ⟨⟨(List.append_nil _).symm, rfl, hw.addChildValues.symm⟩, .inr htexts⟩

theorem writes_array
    (h : ∀ v ∈ list, Writes v) :
    Writes (.array list) := by
  intro w hw
  by_cases hne : list = []
  · subst hne
    exact writes_of_plain rfl w hw
  · obtain ⟨hline, hchild⟩ := isMultineArray_spec hw list
    rw [writeValue, if_neg (by simpa using hne)]
    generalize isMultineArray w list (fun w => writeValues w list) = r at hline hchild
    obtain ⟨isArrayMultiLine, w₁⟩ := r
    dsimp only at hline hchild ⊢
    have hw₁ := hline.ready hw
    split
    · have hbody : Ready (w₁.writeWithIndent ['[']).indent →
          ∃ text, ElementsText (readBacks list) text (Value.depths list) ∧
            Adds (w₁.writeWithIndent ['[']).indent
              (if !w₁.childValues.isEmpty then
                writeChildValues (w₁.writeWithIndent ['[']).indent
                  (w₁.writeWithIndent ['[']).indent.childValues
              else writeElements (w₁.writeWithIndent ['[']).indent list) text := by
        intro hready
        split
        · rename_i hfilled
          have htexts := hchild.resolve_left fun h => by simp [h.2] at hfilled
          rw [writeWithIndent_childValues]
          exact writeChildValues_adds hready hne htexts
        · exact writeElements_adds hready hne h
      obtain ⟨front, text, back, hfront, htext, hback, hadds⟩ := enclosed_adds hw₁ ['['] [']'] hbody
      refine ⟨front, _, hfront, .array (htext.append_blank hback), ?_⟩
      simpa using hline.trans hadds
    · rename_i hsingle
      have htexts := hchild.resolve_left fun h => hsingle h.1
      refine ⟨[], _, blank_nil, .array (elementsText_intercalate hne htexts), ?_⟩
      simpa using hline.trans (adds_add w₁
        ('[' :: ' ' :: ([',', ' '].intercalate w₁.childValues ++ [' ', ']'])))

theorem writes_object
    (h : ∀ m ∈ members, Writes m.2) :
    Writes (.object members) := by
  intro w hw
  cases members with
  | nil => exact writes_of_plain rfl w hw
  | cons m members =>
      obtain ⟨front, text, back, hfront, htext, hback, hadds⟩ :=
        enclosed_adds hw ['{'] ['}'] fun hready =>
          writeMembers_adds hready (List.cons_ne_nil _ _) h
      refine ⟨front, _, hfront, .object (htext.append_blank hback), ?_⟩
      simpa [writeValue] using hadds

/-- Every value is written as a text of what is read back. By induction on the value. -/
theorem writes
    (v : Value) :
    Writes v := by
  induction v using Value.induction with
  | harray list ih => exact writes_array ih
  | hobject members ih => exact writes_object ih
  | _ => exact writes_of_plain rfl

end Writing

/-- What is written is read as the value that it stands for, whatever is behind it, unless the
value is nested deeper than the reader goes. -/
theorem parse_write
    (v : Value) (spare : Text) :
    parse (StyledWriter.write v) spare =
      if v.depth ≤ stackLimit then .ok (readBack v) else .error .stackLimit := by
  obtain ⟨blank, text, hblank, htext, hadds⟩ := writes v ⟨[], [], [], false⟩ ⟨blank_nil, rfl⟩
  have hwrite : StyledWriter.write v = blank ++ (text ++ ['\n']) := by
    show (StyledWriter.writeValue _ v).document ++ ['\n'] = _
    rw [hadds.document, List.nil_append, List.append_assoc]
  rw [hwrite, parse_text hblank htext spare (ends_append blank_nil rfl _ _)]

end Json
end Gamnet
