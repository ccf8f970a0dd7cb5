import Gamnet.Json.Grammar

/-!
# Json::StyledWriter

An array is written in one line where its elements are short, and strings with the escapes that
JSON asks for. A name is written up to its first zero byte.
-/

namespace Gamnet
namespace Json

open Nat (toDigits ofDigitChars)

/-- isControlCharacter -/
def isControlCharacter (c : Char) : Bool :=
  0 < c.toNat && c.toNat ≤ 0x1F

/-- The characters with an escape of their own. -/
def writtenEscapes : List (Char × Char) :=
  [('"', '"'), ('\\', '\\'), ('\x08', 'b'), ('\x0c', 'f'), ('\n', 'n'), ('\r', 'r'), ('\t', 't')]

/-- Four upper case hexadecimal digits. -/
def hexDigits (n : Nat) : Text :=
  [n / 16 ^ 3 % 16, n / 16 ^ 2 % 16, n / 16 % 16, n % 16].map fun d => d.digitChar.toUpper

section Quotes

variable (isControl : Char → Bool)

def escapeChar (c : Char) : Text :=
  match writtenEscapes.lookup c with
  | some e => ['\\', e]
  | none => if isControl c then '\\' :: 'u' :: hexDigits c.toNat else [c]

def quoted (value : Text) : Text :=
  if !value.any (fun c => (writtenEscapes.lookup c).isSome) && !value.any isControl then
    '"' :: (value ++ ['"'])
  else '"' :: (value.flatMap (escapeChar isControl) ++ ['"'])

end Quotes

/-- valueToQuotedString, for the string whose c_str is given to it. -/
def valueToQuotedString (value : Text) : Text :=
  quoted isControlCharacter (value.takeWhile (· ≠ '\x00'))

def valueToQuotedStringN (value : Text) : Text :=
  quoted (fun c => isControlCharacter c || c = '\x00') value

def uintToString (value : Nat) : Text :=
  toDigits 10 value

/-- valueToString for a LargestInt -/
def intToString (value : Int64) : Text :=
  if value = Int64.minValue then '-' :: uintToString (Value.maxLargestInt + 1)
  else if value < 0 then '-' :: uintToString (-value.toInt).toNat
  else uintToString value.toInt.toNat

structure StyledWriter where
  document : Text
  indentString : Text
  childValues : List Text
  addChildValues : Bool

namespace StyledWriter

def rightMargin : Nat := 74

def indentSize : Nat := 3

def pushValue (w : StyledWriter) (value : Text) : StyledWriter :=
  if w.addChildValues then { w with childValues := w.childValues ++ [value] }
  else { w with document := w.document ++ value }

/-- A string that is added to document. -/
def add (w : StyledWriter) (text : Text) : StyledWriter :=
  { w with document := w.document ++ text }

def writeIndent (w : StyledWriter) : StyledWriter :=
  match w.document.getLast? with
  | none => w.add w.indentString
  | some last =>
      if last = ' ' then w
      else if last = '\n' then w.add w.indentString
      else (w.add ['\n']).add w.indentString

def writeWithIndent (w : StyledWriter) (value : Text) : StyledWriter :=
  w.writeIndent.add value

def indent (w : StyledWriter) : StyledWriter :=
  { w with indentString := w.indentString ++ List.replicate indentSize ' ' }

def unindent (w : StyledWriter) : StyledWriter :=
  { w with indentString := w.indentString.take (w.indentString.length - indentSize) }

/-- An array or an object that is not empty. -/
def isFilled : Value → Bool
  | .array list => !list.isEmpty
  | .object members => !members.isEmpty
  | _ => false

/-- How long the array is on a single line, as an unsigned int. -/
def lineLength (childValues : List Text) : Nat :=
  (4 + (childValues.length - 1) * 2 + (childValues.map List.length).sum) % 2 ^ 32

/-- isMultineArray, with the loop that writes the elements into childValues. -/
def isMultineArray (w : StyledWriter) (value : List Value)
    (writeValues : StyledWriter → StyledWriter) : Bool × StyledWriter :=
  let w := { w with childValues := [] }
  if rightMargin ≤ value.length * 3 % 2 ^ 32 || value.any isFilled then (true, w)
  else
    let w := { writeValues { w with addChildValues := true } with addChildValues := false }
    (rightMargin ≤ lineLength w.childValues, w)

/-- The loop of writeArrayValue over childValues. -/
def writeChildValues (w : StyledWriter) : List Text → StyledWriter
  | [] => w
  | [value] => w.writeWithIndent value
  | value :: values => writeChildValues ((w.writeWithIndent value).add [',']) values

mutual

def writeValue (w : StyledWriter) : Value → StyledWriter
  | .null => w.pushValue ['n', 'u', 'l', 'l']
  | .int n => w.pushValue (intToString n)
  | .uint n => w.pushValue (uintToString n.toNat)
  | .string text => w.pushValue (valueToQuotedStringN text)
  | .boolean b => w.pushValue (if b then ['t', 'r', 'u', 'e'] else ['f', 'a', 'l', 's', 'e'])
  | .array list =>
      if list.isEmpty then w.pushValue ['[', ']']
      else
        let (isArrayMultiLine, w) := w.isMultineArray list fun w => writeValues w list
        if isArrayMultiLine then
          let hasChildValue := !w.childValues.isEmpty
          let w := (w.writeWithIndent ['[']).indent
          let w :=
            if hasChildValue then w.writeChildValues w.childValues else writeElements w list
          w.unindent.writeWithIndent [']']
        else w.add ('[' :: ' ' :: ([',', ' '].intercalate w.childValues ++ [' ', ']']))
  | .object members =>
      if members.isEmpty then w.pushValue ['{', '}']
      else
        (writeMembers (w.writeWithIndent ['{']).indent members).unindent.writeWithIndent ['}']

/-- The loop of isMultineArray over the elements. -/
def writeValues (w : StyledWriter) : List Value → StyledWriter
  | [] => w
  | v :: list => writeValues (writeValue w v) list

/-- The loop of writeArrayValue over the elements. -/
def writeElements (w : StyledWriter) : List Value → StyledWriter
  | [] => w
  | [v] => writeValue w.writeIndent v
  | v :: list => writeElements ((writeValue w.writeIndent v).add [',']) list

/-- The loop over the members of an object. -/
def writeMembers (w : StyledWriter) : Members → StyledWriter
  | [] => w
  | [m] => writeMember w m
  | m :: members => writeMembers ((writeMember w m).add [',']) members

def writeMember (w : StyledWriter) : Text × Value → StyledWriter
  | (name, childValue) =>
      writeValue ((w.writeWithIndent (valueToQuotedString name)).add [' ', ':', ' ']) childValue

end

def write (root : Value) : Text :=
  ((writeValue ⟨[], [], [], false⟩ root).add ['\n']).document

end StyledWriter

end Json
end Gamnet
