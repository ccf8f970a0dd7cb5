import Gamnet.Idlc.GenerateRuleCpp
import Gamnet.Lib.Numeral
import Mathlib.Data.List.TakeWhile

/-!
# Integer literals

The lexer hands on the text of an INTEGER. For an enum the generators of C++ and of C#
copy this text, and the generator of Python computes a number from it and writes that. For
the id of a message the parser computes a number with atoi, and all generators write this.

A leading zero makes a numeral octal in C++ and not in the other two, and atoi stops at
the x of a hexadecimal numeral. No implicit successor may exceed the largest int.
-/

namespace Gamnet
namespace Idlc
namespace Literals

open Nat (ofDigitChars toDigits)

/-- The number that a hexadecimal digit stands for. -/
def hexDigit (c : Char) : Nat :=
  if c.isDigit then c.toNat - '0'.toNat
  else if 'a'.toNat ≤ c.toNat then c.toNat - 'a'.toNat + 10
  else c.toNat - 'A'.toNat + 10

/-- The number that hexadecimal digits stand for. -/
def hexValue (digits : List Char) : Nat :=
  digits.foldl (fun n c => 16 * n + hexDigit c) 0

/-- The number that the text of an INTEGER denotes. -/
def denotes : List Char → Option Nat
  | '0' :: 'x' :: digits =>
      if digits ≠ [] ∧ digits.all Char.isHexDigit then some (hexValue digits) else none
  | digits =>
      if digits ≠ [] ∧ digits.all Char.isDigit then some (ofDigitChars 10 digits 0) else none

/-- An INTEGER below 2^31. -/
structure Literal where
  text : List Char
  number : Nat
  denoted : denotes text = some number
  small : number < 2 ^ 31

section Languages

/-- An integer literal of C++ and of Python 2. A leading zero makes it octal. -/
def octalLiteral : List Char → Option Nat
  | '0' :: 'x' :: digits => denotes ('0' :: 'x' :: digits)
  | '0' :: digits =>
      if digits.all fun c => c.isDigit && decide (c.toNat < '8'.toNat) then
        some (ofDigitChars 8 digits 0)
      else none
  | digits => denotes digits

/-- An integer literal of C# where an int is needed. -/
def intLiteral (text : List Char) : Option Nat :=
  (denotes text).bind fun n => if n < 2 ^ 31 then some n else none

/-- The values of the enumerators of an enum, where one without a literal is the successor
of the one before it. -/
def enumerators
    (literal : List Char → Option Nat)
    (limit : Nat) : Nat → List (Option (List Char)) → Option (List Nat)
  | _, [] => some []
  | _, some text :: rest => do
      let n ← literal text
      let values ← enumerators literal limit (n + 1) rest
      pure (n :: values)
  | next, none :: rest =>
      if next < limit then do
        let values ← enumerators literal limit (next + 1) rest
        pure (next :: values)
      else none

end Languages

section Generators

/-- A number as it is written to the output. -/
def print : Int → List Char
  | .ofNat n => toDigits 10 n
  | .negSucc n => '-' :: toDigits 10 (n + 1)

/-- atoi, for a text that does not begin with a blank or a sign. -/
def atoi (text : List Char) : Option Int :=
  let n := ofDigitChars 10 (text.takeWhile Char.isDigit) 0
  if n < 2 ^ 31 then some n else none

/-- A find call with the text 0x. -/
def hasHexPrefix : List Char → Bool
  | '0' :: 'x' :: _ => true
  | _ :: text => hasHexPrefix text
  | [] => false

/-- A hexadecimal number that is read from a stringstream into an int. -/
def readHex (text : List Char) : Int :=
  match text with
  | '0' :: 'x' :: digits =>
      min (hexValue (digits.takeWhile Char.isHexDigit)) (2 ^ 31 - 1 : Nat)
  | _ => min (hexValue (text.takeWhile Char.isHexDigit)) (2 ^ 31 - 1 : Nat)

/-- The successor of an int. -/
def increment (n : Int) : Option Int :=
  if n + 1 < 2 ^ 31 then some (n + 1) else none

/-- The initializers that CompileEnum of GenerateRuleCpp and of GenerateRuleCSharp writes. -/
def compileEnum (numbers : List (Option (List Char))) : List (Option (List Char)) :=
  numbers

/-- nMaxNumber behind an element of an enum in CompileEnum of GenerateRulePython. -/
def maxNumber (nMaxNumber : Int) : Option (List Char) → Option Int
  | some sNumber => if hasHexPrefix sNumber then some (readHex sNumber) else atoi sNumber
  | none => increment nMaxNumber

/-- The initializers that CompileEnum of GenerateRulePython writes. -/
def compileEnumPython : Int → List (Option (List Char)) → Option (List (List Char))
  | _, [] => some []
  | nMaxNumber, number :: rest => do
      let nMaxNumber ← maxNumber nMaxNumber number
      let texts ← compileEnumPython nMaxNumber rest
      pure (print nMaxNumber :: texts)

/-- The MSG_ID that CompileMessage writes. -/
def compileMsgId (text : List Char) : Option (List Char) := do
  let nSeqNo ← atoi text
  if 0 < nSeqNo then some (print nSeqNo) else none

end Generators

section Outputs

/-- The values of an enum in the output for C++. -/
def cppEnum (numbers : List (Option (List Char))) : Option (List Nat) :=
  enumerators octalLiteral (2 ^ 64) 0 (compileEnum numbers)

/-- The values of an enum in the output for C#. -/
def csharpEnum (numbers : List (Option (List Char))) : Option (List Nat) :=
  enumerators intLiteral (2 ^ 31) 0 (compileEnum numbers)

/-- The values of an enum in the output for Python. -/
def pythonEnum (numbers : List (Option (List Char))) : Option (List Nat) :=
  (compileEnumPython (-1) numbers).bind fun texts => texts.mapM octalLiteral

/-- The texts of the elements of an enum. -/
def texts (numbers : List (Option Literal)) : List (Option (List Char)) :=
  numbers.map (Option.map Literal.text)

/-- The values of an enum by the numbers that its literals denote. -/
def values (next : Nat) (numbers : List (Option Literal)) : List Nat :=
  enumValues next (numbers.map (Option.map Literal.number))

/-- An enum has the same values in all three outputs. -/
def EnumsAgree (numbers : List (Option Literal)) : Prop :=
  ∃ vs, cppEnum (texts numbers) = some vs ∧ csharpEnum (texts numbers) = some vs ∧
    pythonEnum (texts numbers) = some vs

/-- MSG_ID of a message is the number that its literal denotes, in all three outputs. -/
def MsgIdsAgree (literal : Literal) : Prop :=
  (compileMsgId literal.text).bind octalLiteral = some literal.number ∧
    (compileMsgId literal.text).bind intLiteral = some literal.number ∧
      (compileMsgId literal.text).bind octalLiteral = some literal.number

end Outputs

section Reading

/-- A hexadecimal literal. -/
def isHex : List Char → Bool
  | '0' :: 'x' :: _ => true
  | _ => false

/-- A literal that C++ reads as the others do: a hexadecimal one, one that does not begin
with a zero, or zeros in front of a single octal digit. -/
def Plain (text : List Char) : Prop :=
  isHex text = true ∨ text.head? ≠ some '0' ∨
    ∃ n c, text = List.replicate n '0' ++ [c] ∧ c.toNat < '8'.toNat

theorem denotes_of_not_hex
    {text : List Char}
    (h : isHex text = false) :
    denotes text =
      if text ≠ [] ∧ text.all Char.isDigit then some (ofDigitChars 10 text 0) else none := by
  unfold denotes
  split
  · cases h
  · rfl

theorem denotes_of_hex
    {text : List Char}
    (h : isHex text = true) :
    ∃ digits, text = '0' :: 'x' :: digits ∧
      denotes text = if digits ≠ [] ∧ digits.all Char.isHexDigit then some (hexValue digits)
        else none := by
  unfold isHex at h
  split at h
  · rename_i digits
    exact ⟨digits, rfl, rfl⟩
  · cases h

/-- Hexadecimal numbers mean the same to every language. -/
theorem octalLiteral_of_hex
    {text : List Char}
    (h : isHex text = true) :
    octalLiteral text = denotes text := by
  obtain ⟨digits, rfl, -⟩ := denotes_of_hex h
  rfl

/-- A number without a zero in front means the same to every language. -/
theorem octalLiteral_of_head
    {text : List Char}
    (h : text.head? ≠ some '0') :
    octalLiteral text = denotes text := by
  unfold octalLiteral
  split
  · rfl
  · exact absurd rfl h
  · rfl

/-- A zero in front makes the number octal. -/
theorem octalLiteral_of_zero
    {digits : List Char}
    (h : isHex ('0' :: digits) = false) :
    octalLiteral ('0' :: digits) =
      if digits.all fun c => c.isDigit && decide (c.toNat < '8'.toNat) then
        some (ofDigitChars 8 digits 0)
      else none := by
  unfold octalLiteral
  split
  · rename_i heq
    rw [heq] at h
    cases h
  · rename_i heq
    rw [List.cons.inj heq |>.2]
  · rename_i hnot
    exact absurd rfl (hnot digits)

/-- A leading zero does not count. -/
theorem ofDigitChars_zero_cons
    (b : Nat) (digits : List Char) :
    ofDigitChars b ('0' :: digits) 0 = ofDigitChars b digits 0 := by
  rw [Nat.ofDigitChars_cons, Nat.mul_zero]
  rfl

/-- Behind a leading zero the digits are those of a plain literal. -/
theorem plain_of_zero
    {digits : List Char}
    (hhex : isHex ('0' :: digits) = false) :
    Plain ('0' :: digits) ↔
      digits = [] ∨ ∃ l c, digits = l ++ [c] ∧ (∀ x ∈ l, x = '0') ∧ c.toNat < '8'.toNat := by
  constructor
  · rintro (h | h | ⟨n, c, h, hc⟩)
    · rw [hhex] at h
      cases h
    · exact absurd rfl h
    · cases n with
      | zero =>
          obtain ⟨-, rfl⟩ := List.cons.inj h
          exact .inl rfl
      | succ n =>
          rw [List.replicate_succ, List.cons_append] at h
          obtain ⟨-, rfl⟩ := List.cons.inj h
          exact .inr ⟨_, c, rfl, fun x hx => List.eq_of_mem_replicate hx, hc⟩
  · rintro (rfl | ⟨l, c, rfl, hl, hc⟩)
    · exact .inr (.inr ⟨0, '0', rfl, by decide⟩)
    · refine .inr (.inr ⟨l.length + 1, c, ?_, hc⟩)
      rw [List.replicate_succ, List.cons_append, ← List.eq_replicate_of_mem hl]

/-- Octal digits stand for the same number as decimal ones exactly if only the last one
counts. -/
theorem octal_eq_decimal_iff
    {digits : List Char}
    (hdigits : ∀ x ∈ digits, x.isDigit = true) :
    (if digits.all fun c => c.isDigit && decide (c.toNat < '8'.toNat) then
        some (ofDigitChars 8 digits 0)
      else none) = some (ofDigitChars 10 digits 0) ↔
      digits = [] ∨ ∃ l c, digits = l ++ [c] ∧ (∀ x ∈ l, x = '0') ∧ c.toNat < '8'.toNat := by
  obtain rfl | ⟨l, c, rfl⟩ := List.eq_nil_or_concat' digits
  · simp
  · have hl : ∀ x ∈ l, x.isDigit = true := fun x hx => hdigits x (by simp [hx])
    have hc : c.isDigit = true := hdigits c (by simp)
    have hvalue := Numeral.ofDigitChars_eq_iff (b := 8) (k := 10) (by decide) (c := c) hl
    constructor
    · intro h
      split_ifs at h with hall
      have hsmall := List.all_eq_true.mp hall c (by simp)
      rw [Bool.and_eq_true, decide_eq_true_eq] at hsmall
      exact .inr ⟨l, c, rfl, hvalue.mp (Option.some.inj h), hsmall.2⟩
    · rintro (h | ⟨l', c', happ, hzeros, hsmall⟩)
      · exact absurd h (by simp)
      · obtain ⟨rfl, hlast⟩ := List.append_inj' happ rfl
        obtain ⟨rfl, -⟩ := List.cons.inj hlast
        have hall : ((l ++ [c]).all fun c => c.isDigit && decide (c.toNat < '8'.toNat)) =
            true := by
          rw [List.all_eq_true]
          intro x hx
          rcases List.mem_append.mp hx with hx | hx
          · rw [hzeros x hx]
            decide
          · rw [List.mem_singleton.mp hx, hc, Bool.true_and, decide_eq_true_eq]
            exact hsmall
        rw [if_pos hall, hvalue.mpr hzeros]

/-- C++ reads a literal as the number that it denotes exactly if it is plain. -/
theorem octalLiteral_eq_iff
    {text : List Char} {n : Nat}
    (h : denotes text = some n) :
    octalLiteral text = some n ↔ Plain text := by
  cases hhex : isHex text with
  | true =>
      rw [octalLiteral_of_hex hhex]
      exact iff_of_true h (.inl hhex)
  | false =>
      by_cases hhead : text.head? = some '0'
      · obtain ⟨digits, rfl⟩ := List.head?_eq_some_iff.mp hhead
        rw [denotes_of_not_hex hhex] at h
        split_ifs at h with hdigits
        rw [ofDigitChars_zero_cons] at h
        obtain rfl := Option.some.inj h
        rw [octalLiteral_of_zero hhex, plain_of_zero hhex]
        exact octal_eq_decimal_iff fun x hx => List.all_eq_true.mp hdigits.2 x (by simp [hx])
      · rw [octalLiteral_of_head hhead]
        exact iff_of_true h (.inr (.inl hhead))

end Reading

section Enums

@[simp] theorem texts_some
    (l : Literal) (numbers : List (Option Literal)) :
    texts (some l :: numbers) = some l.text :: texts numbers := by
  rfl

@[simp] theorem texts_none
    (numbers : List (Option Literal)) :
    texts (none :: numbers) = none :: texts numbers := by
  rfl

@[simp] theorem values_some
    (next : Nat) (l : Literal) (numbers : List (Option Literal)) :
    values next (some l :: numbers) = l.number :: values (l.number + 1) numbers := by
  rfl

@[simp] theorem values_none
    (next : Nat) (numbers : List (Option Literal)) :
    values next (none :: numbers) = next :: values (next + 1) numbers := by
  rfl

variable {literal : List Char → Option Nat} {limit next : Nat}
variable {numbers : List (Option Literal)}

/-- Literals that are read as the numbers that they denote give the values of an enum. -/
theorem enumerators_of_reads
    (hreads : ∀ l, some l ∈ numbers → literal l.text = some l.number)
    (hsmall : ∀ v ∈ values next numbers, v < limit) :
    enumerators literal limit next (texts numbers) = some (values next numbers) := by
  induction numbers generalizing next with
  | nil => rfl
  | cons number numbers ih =>
      have hrest := fun l hl => hreads l (List.mem_cons_of_mem _ hl)
      cases number with
      | some l =>
          rw [values_some] at hsmall ⊢
          have htail := ih hrest fun v hv => hsmall v (List.mem_cons_of_mem _ hv)
          rw [texts_some, enumerators, hreads l List.mem_cons_self, Option.bind_eq_bind,
            Option.bind_some, htail]
          rfl
      | none =>
          rw [values_none] at hsmall ⊢
          have htail := ih hrest fun v hv => hsmall v (List.mem_cons_of_mem _ hv)
          rw [texts_none, enumerators, if_pos (hsmall next List.mem_cons_self), htail]
          rfl

/-- If the values of an enum are those that its literals denote, each literal is read as
the number that it denotes, and no successor reaches the limit. -/
theorem reads_of_enumerators
    (hvalues : enumerators literal limit next (texts numbers) = some (values next numbers))
    (hlimit : 2 ^ 31 ≤ limit) :
    (∀ l, some l ∈ numbers → literal l.text = some l.number) ∧
      ∀ v ∈ values next numbers, v < limit := by
  induction numbers generalizing next with
  | nil => exact ⟨fun l hl => (by cases hl), fun v hv => (by cases hv)⟩
  | cons number numbers ih =>
      cases number with
      | some l =>
          rw [values_some] at hvalues ⊢
          obtain ⟨n, hn, hrest⟩ := Option.bind_eq_some_iff.mp hvalues
          obtain ⟨vs, hvs, hcons⟩ := Option.bind_eq_some_iff.mp hrest
          obtain ⟨rfl, rfl⟩ := List.cons.inj (Option.some.inj hcons)
          obtain ⟨hreads, hsmall⟩ := ih hvs
          refine ⟨fun l' hl' => ?_, fun v hv => ?_⟩
          · rcases List.mem_cons.mp hl' with heq | hl'
            · obtain rfl := Option.some.inj heq
              exact hn
            · exact hreads l' hl'
          · rcases List.mem_cons.mp hv with rfl | hv
            · exact lt_of_lt_of_le l.small hlimit
            · exact hsmall v hv
      | none =>
          rw [values_none, texts_none, enumerators] at hvalues
          rw [values_none]
          split_ifs at hvalues with hnext
          obtain ⟨vs, hvs, hcons⟩ := Option.bind_eq_some_iff.mp hvalues
          obtain ⟨-, rfl⟩ := List.cons.inj (Option.some.inj hcons)
          obtain ⟨hreads, hsmall⟩ := ih hvs
          refine ⟨fun l' hl' => ?_, fun v hv => ?_⟩
          · rcases List.mem_cons.mp hl' with heq | hl'
            · cases heq
            · exact hreads l' hl'
          · rcases List.mem_cons.mp hv with rfl | hv
            · exact hnext
            · exact hsmall v hv

/-- With literals that are read as they should be, an enum has no other values. -/
theorem values_of_enumerators
    (hreads : ∀ l, some l ∈ numbers → literal l.text = some l.number)
    {vs : List Nat}
    (hvs : enumerators literal limit next (texts numbers) = some vs) :
    vs = values next numbers := by
  induction numbers generalizing next vs with
  | nil =>
      cases hvs
      rfl
  | cons number numbers ih =>
      have hrest := fun l hl => hreads l (List.mem_cons_of_mem _ hl)
      cases number with
      | some l =>
          obtain ⟨n, hn, htail⟩ := Option.bind_eq_some_iff.mp hvs
          obtain ⟨vs', hvs', hcons⟩ := Option.bind_eq_some_iff.mp htail
          obtain rfl := Option.some.inj hcons
          have hl := hreads l List.mem_cons_self
          obtain rfl := Option.some.inj (hn.symm.trans hl)
          exact congrArg (l.number :: ·) (ih hrest hvs')
      | none =>
          rw [texts_none, enumerators] at hvs
          split_ifs at hvs with hnext
          obtain ⟨vs', hvs', hcons⟩ := Option.bind_eq_some_iff.mp hvs
          obtain rfl := Option.some.inj hcons
          exact congrArg (next :: ·) (ih hrest hvs')

/-- The text of a literal is read as its number. -/
theorem intLiteral_text
    (l : Literal) :
    intLiteral l.text = some l.number := by
  rw [intLiteral, l.denoted, Option.bind_some, if_pos l.small]

end Enums

section Printing

/-- A printed number is read as it is. -/
theorem denotes_toDigits
    (n : Nat) :
    denotes (toDigits 10 n) = some n := by
  have hdigits : ∀ c ∈ toDigits 10 n, c.isDigit = true := fun c hc =>
    Nat.isDigit_of_mem_toDigits (by decide) (by decide) hc
  have hhex : isHex (toDigits 10 n) = false := by
    cases hdigits' : isHex (toDigits 10 n) with
    | false => rfl
    | true =>
        obtain ⟨digits, htext, -⟩ := denotes_of_hex hdigits'
        have hx := hdigits 'x' (by rw [htext]; simp)
        exact absurd hx (by decide)
  rw [denotes_of_not_hex hhex, if_pos, Nat.ofDigitChars_ten_toDigits]
  exact ⟨Nat.toDigits_ne_nil, List.all_eq_true.mpr hdigits⟩

/-- A printed number is no octal literal, and means itself. -/
theorem octalLiteral_toDigits
    (n : Nat) :
    octalLiteral (toDigits 10 n) = some n := by
  rw [octalLiteral_eq_iff (denotes_toDigits n)]
  by_cases hhead : (toDigits 10 n).head? = some '0'
  · obtain ⟨digits, htext⟩ := List.head?_eq_some_iff.mp hhead
    obtain ⟨-, rfl⟩ := Numeral.eq_zero_of_toDigits htext
    exact .inr (.inr ⟨0, '0', htext, by decide⟩)
  · exact .inr (.inl hhead)

theorem intLiteral_toDigits
    {n : Nat}
    (hn : n < 2 ^ 31) :
    intLiteral (toDigits 10 n) = some n := by
  rw [intLiteral, denotes_toDigits, Option.bind_some, if_pos hn]

end Printing

section Python

theorem hasHexPrefix_of_digits
    {text : List Char}
    (h : ∀ c ∈ text, c.isDigit = true) :
    hasHexPrefix text = false := by
  induction text with
  | nil => rfl
  | cons c text ih =>
      have hrest := ih fun x hx => h x (List.mem_cons_of_mem c hx)
      unfold hasHexPrefix
      split
      · rename_i heq
        have hx := h 'x' (by rw [heq]; simp)
        exact absurd hx (by decide)
      · rename_i heq
        rwa [← (List.cons.inj heq).2]
      · rfl

/-- atoi reads a literal that is not hexadecimal. -/
theorem atoi_text
    {l : Literal}
    (h : isHex l.text = false) :
    atoi l.text = some (l.number : Int) := by
  have hdenoted := l.denoted
  rw [denotes_of_not_hex h] at hdenoted
  split_ifs at hdenoted with hdigits
  have htake : l.text.takeWhile Char.isDigit = l.text :=
    List.takeWhile_eq_self_iff.mpr (List.all_eq_true.mp hdigits.2)
  rw [atoi, htake, Option.some.inj hdenoted, if_pos l.small]

/-- atoi reads nothing but the zero of a hexadecimal literal. -/
theorem atoi_hex
    {text : List Char}
    (h : isHex text = true) :
    atoi text = some 0 := by
  obtain ⟨digits, rfl, -⟩ := denotes_of_hex h
  rfl

/-- nMaxNumber is the number that the literal denotes. -/
theorem maxNumber_some
    (nMaxNumber : Int)
    (l : Literal) :
    maxNumber nMaxNumber (some l.text) = some (l.number : Int) := by
  cases hhex : isHex l.text with
  | true =>
      have hdenoted := l.denoted
      obtain ⟨digits, htext, hvalue⟩ := denotes_of_hex hhex
      rw [hvalue] at hdenoted
      split_ifs at hdenoted with hdigits
      have htake : digits.takeWhile Char.isHexDigit = digits :=
        List.takeWhile_eq_self_iff.mpr (List.all_eq_true.mp hdigits.2)
      have hsmall := l.small
      simp only [maxNumber, htext, hasHexPrefix, readHex, htake, Option.some.inj hdenoted,
        if_true]
      congr 1
      omega
  | false =>
      have hdenoted := l.denoted
      rw [denotes_of_not_hex hhex] at hdenoted
      split_ifs at hdenoted with hdigits
      have hnot := hasHexPrefix_of_digits (List.all_eq_true.mp hdigits.2)
      simp only [maxNumber, hnot, Bool.false_eq_true, if_false]
      exact atoi_text hhex

theorem maxNumber_none
    {next : Nat}
    (hnext : next < 2 ^ 31) :
    maxNumber ((next : Int) - 1) none = some (next : Int) := by
  have hsum : (next : Int) - 1 + 1 = next := by omega
  rw [maxNumber, increment, hsum, if_pos (by omega)]

/-- Python writes the values of an enum, if they are ints. -/
theorem compileEnumPython_eq
    {next : Nat} {numbers : List (Option Literal)}
    (hsmall : ∀ v ∈ values next numbers, v < 2 ^ 31) :
    compileEnumPython ((next : Int) - 1) (texts numbers) =
      some ((values next numbers).map (toDigits 10)) := by
  induction numbers generalizing next with
  | nil => rfl
  | cons number numbers ih =>
      cases number with
      | some l =>
          rw [values_some] at hsmall ⊢
          have htail := ih fun v hv => hsmall v (List.mem_cons_of_mem _ hv)
          have hprev : ((l.number + 1 : Nat) : Int) - 1 = l.number := by omega
          rw [hprev] at htail
          rw [texts_some, compileEnumPython, maxNumber_some, Option.bind_eq_bind,
            Option.bind_some, htail]
          rfl
      | none =>
          rw [values_none] at hsmall ⊢
          have htail := ih fun v hv => hsmall v (List.mem_cons_of_mem _ hv)
          have hprev : ((next + 1 : Nat) : Int) - 1 = next := by omega
          rw [hprev] at htail
          rw [texts_none, compileEnumPython, maxNumber_none (hsmall next List.mem_cons_self),
            Option.bind_eq_bind, Option.bind_some, htail]
          rfl

theorem mapM_octalLiteral
    (vs : List Nat) :
    (vs.map (toDigits 10)).mapM octalLiteral = some vs := by
  induction vs with
  | nil => rfl
  | cons v vs ih =>
      rw [List.map_cons, List.mapM_cons, octalLiteral_toDigits, ih]
      rfl

end Python

/-- An enum has the same values in all outputs exactly if its literals are plain and its
values are ints. -/
theorem enumsAgree_iff
    (numbers : List (Option Literal)) :
    EnumsAgree numbers ↔
      (∀ l, some l ∈ numbers → Plain l.text) ∧ ∀ v ∈ values 0 numbers, v < 2 ^ 31 := by
  constructor
  · rintro ⟨vs, hcpp, hcsharp, -⟩
    obtain rfl := values_of_enumerators (fun l _ => intLiteral_text l) hcsharp
    have hsharp := reads_of_enumerators hcsharp (Nat.le_refl _)
    have hplain := reads_of_enumerators hcpp (by decide)
    exact ⟨fun l hl => (octalLiteral_eq_iff l.denoted).mp (hplain.1 l hl), hsharp.2⟩
  · rintro ⟨hplain, hsmall⟩
    refine ⟨values 0 numbers, ?_, ?_, ?_⟩
    · refine enumerators_of_reads (fun l hl => (octalLiteral_eq_iff l.denoted).mpr (hplain l hl))
        fun v hv => ?_
      exact lt_trans (hsmall v hv) (by decide)
    · exact enumerators_of_reads (fun l _ => intLiteral_text l) hsmall
    · have hpython := @compileEnumPython_eq 0 numbers hsmall
      rw [pythonEnum]
      change (compileEnumPython (((0 : Nat) : Int) - 1) (texts numbers)).bind _ = _
      rw [hpython, Option.bind_some, mapM_octalLiteral]

/-- MSG_ID is the number of the message exactly if the literal is decimal and not zero. -/
theorem msgIdsAgree_iff
    (literal : Literal) :
    MsgIdsAgree literal ↔ isHex literal.text = false ∧ literal.number ≠ 0 := by
  cases hhex : isHex literal.text with
  | true =>
      refine iff_of_false ?_ (fun h => by cases h.1)
      rintro ⟨h, -⟩
      rw [compileMsgId, atoi_hex hhex] at h
      cases h
  | false =>
      have hsmall := literal.small
      unfold MsgIdsAgree
      simp only [compileMsgId, atoi_text hhex, Option.bind_eq_bind, Option.bind_some]
      by_cases hzero : literal.number = 0
      · refine iff_of_false ?_ (fun h => h.2 hzero)
        rintro ⟨h, -⟩
        rw [hzero] at h
        cases h
      · rw [if_pos (by omega)]
        refine iff_of_true ?_ ⟨trivial, hzero⟩
        exact ⟨octalLiteral_toDigits _, intLiteral_toDigits hsmall, octalLiteral_toDigits _⟩

/-- An enum has the same values in all outputs if and only if no literal of it has a
leading zero that counts and no value of it exceeds an int. MSG_ID of a message is the
denoted number in all outputs if and only if the literal is decimal and not zero. -/
theorem literals_agree_iff
    (numbers : List (Option Literal))
    (literal : Literal) :
    (EnumsAgree numbers ↔
      (∀ l, some l ∈ numbers → Plain l.text) ∧ ∀ v ∈ values 0 numbers, v < 2 ^ 31) ∧
    (MsgIdsAgree literal ↔ isHex literal.text = false ∧ literal.number ≠ 0) :=
  ⟨enumsAgree_iff numbers, msgIdsAgree_iff literal⟩

/-- The literal 010. -/
def ten : Literal where
  text := ['0', '1', '0']
  number := 10
  denoted := rfl
  small := by decide

/-- The literal 0x10. -/
def sixteen : Literal where
  text := ['0', 'x', '1', '0']
  number := 16
  denoted := rfl
  small := by decide

/-- An element with the literal 010 is 8 in C++ and 10 in C#, and a message with the id
0x10 has no MSG_ID. -/
theorem literals_not_agree :
    ¬ ∀ (numbers : List (Option Literal)) (literal : Literal),
      EnumsAgree numbers ∧ MsgIdsAgree literal := by
  intro hagree
  obtain ⟨⟨vs, hcpp, hcsharp, -⟩, -⟩ := hagree [some ten] sixteen
  have height : cppEnum (texts [some ten]) = some [8] := rfl
  have hten : csharpEnum (texts [some ten]) = some [10] := rfl
  rw [height] at hcpp
  rw [hten, ← hcpp] at hcsharp
  exact absurd hcsharp (by decide)

end Literals
end Idlc
end Gamnet
