import Gamnet.Lib.ByteString
import Gamnet.Lib.WhileLoop
import Gamnet.Lib.Words
import Mathlib.Algebra.Group.Int.Defs

/-!
# The Redis connection

Execute reads from the socket until what it has read contains CR LF, divides it into
words, and repeats this until a read ends in LF; the last word of a read that does not is
put in front of the first word of the next one, unless that one begins with a type
character. Parse interprets the words by their first characters: '$' takes the next word
as the text of a bulk string, '*' is followed by a call for each of its elements, and
what has no type character is added to the error text.

What arrives is a list of segments. A bulk string or an array at the end of the words
makes Parse use an iterator behind the end, and a count that is no int is not defined
for atoi: the result is then undefined. The segments that Execute has not read are left
for the next call.
-/

namespace Gamnet
namespace Redis

/-- Carriage return. -/
def cr : UInt8 := 0x0D

/-- Line feed. -/
def lf : UInt8 := 0x0A

/-- The characters that formatted input skips. -/
def isSpace (c : UInt8) : Bool :=
  c = 0x20 || (0x09 ≤ c && c ≤ 0x0D)

/-- The words of a text. -/
abbrev words (s : Bytes) : List Bytes :=
  Words.words isSpace s

/-- The type characters: '+', '-', ':', '$' and '*'. -/
def plus : UInt8 := 0x2B
def minus : UInt8 := 0x2D
def colon : UInt8 := 0x3A
def dollar : UInt8 := 0x24
def star : UInt8 := 0x2A

/-- The word begins with a type character. -/
def isTyped (word : Bytes) : Bool :=
  match word with
  | [] => false
  | c :: _ => c = plus || c = minus || c = colon || c = dollar || c = star

/-- "$-1". -/
def nullToken : Bytes := [dollar, minus, 0x31]

/-- The words of a result set and its error text. -/
structure ResultSetImpl where
  entries : List Bytes
  error : Bytes

/-- A result set as it is made. -/
def ResultSetImpl.empty : ResultSetImpl where
  entries := []
  error := []

/-- push_back. -/
def ResultSetImpl.pushBack (impl : ResultSetImpl) (value : Bytes) : ResultSetImpl :=
  { impl with entries := impl.entries ++ [value] }

/-- One word of a read: behind a word that was cut off, it continues that one unless it
begins with a type character. -/
def addWord (s : List Bytes × Bytes) (word : Bytes) : List Bytes × Bytes :=
  let cut := isTyped word && s.2 ≠ []
  let tokens := if cut then s.1 ++ [s.2] else s.1
  let token := if cut then [] else s.2
  (tokens ++ [token ++ word], [])

/-- The text contains CR LF. -/
def hasCrLf : Bytes → Bool
  | c :: d :: s => (c = cr && d = lf) || hasCrLf (d :: s)
  | _ => false

/-- read_until: segments are read until the text contains CR LF. -/
def readUntil : Bytes → List Bytes → Option (Bytes × List Bytes)
  | text, [] => if hasCrLf text then some (text, []) else none
  | text, s :: segments =>
      if hasCrLf text then some (text, s :: segments) else readUntil (text ++ s) segments

/-- The state of the read loop: the words, the word that was cut off, and the segments
that have not been read. -/
structure Reading where
  tokens : List Bytes
  token : Bytes
  segments : List Bytes

/-- One round of the read loop. It ends with the words and the segments behind them, or
without a result when it waits for more than there is. -/
def readRound (s : Reading) : Reading ⊕ Option (List Bytes × List Bytes) :=
  match readUntil [] s.segments with
  | none => .inr none
  | some (data, segments) =>
      let (tokens, token) := (words data).foldl addWord (s.tokens, s.token)
      if tokens = [] then .inr (some (tokens, segments))
      else if data.getLast? = some lf then .inr (some (tokens, segments))
      else .inl ⟨tokens.dropLast, tokens.getLastD token, segments⟩

/-- The number at the front of a text. -/
def atoi (s : Bytes) : Option Int :=
  let s := s.dropWhile isSpace
  let negative := s.head? = some minus
  let digits := if negative || s.head? = some plus then s.tail else s
  let value : Nat := (digits.takeWhile fun c => 0x30 ≤ c && c ≤ 0x39).foldl
    (fun n c => n * 10 + (c.toNat - 0x30)) 0
  let value : Int := if negative then -value else value
  if -2 ^ 31 ≤ value ∧ value < 2 ^ 31 then some value else none

/-- A loop of n calls. -/
def times (call : ResultSetImpl → List Bytes → Option (ResultSetImpl × List Bytes)) :
    Nat → ResultSetImpl → List Bytes → Option (ResultSetImpl × List Bytes)
  | 0, impl, rest => some (impl, rest)
  | n + 1, impl, rest =>
      match call impl rest with
      | none => none
      | some (impl, rest) => times call n impl rest

/-- The cases of the switch in Parse; that of '$' is divided. -/
inductive Kind
  | text
  | error
  | null
  | bulk
  | array
  | other
deriving DecidableEq

/-- The switch on the first character. -/
def kindOf (token : Bytes) : Kind :=
  if token.head? = some plus then .text
  else if token.head? = some minus then .error
  else if token.head? = some colon then .text
  else if token.head? = some dollar then if token = nullToken then .null else .bulk
  else if token.head? = some star then .array
  else .other

/-- The cases, for a word and those behind it. They leave the words behind the one that
the iterator is at. -/
def parseWord (call : ResultSetImpl → List Bytes → Option (ResultSetImpl × List Bytes))
    (impl : ResultSetImpl) (token : Bytes) (rest : List Bytes) :
    Option (ResultSetImpl × List Bytes) :=
  match kindOf token with
  | .text => some (impl.pushBack token.tail, rest)
  | .error => some ({ impl with error := token }, rest)
  | .null => some (impl, rest)
  | .bulk =>
      match rest with
      | [] => none
      | value :: rest => some (impl.pushBack value, rest)
  | .array =>
      match atoi token.tail with
      | none => none
      | some count => times call count.toNat impl rest
  | .other => some ({ impl with error := impl.error ++ 0x20 :: token }, rest)

/-- Parse, with the words from the iterator on. -/
def parse : Nat → ResultSetImpl → List Bytes → Option (ResultSetImpl × List Bytes)
  | 0, _, _ => none
  | _ + 1, _, [] => none
  | depth + 1, impl, token :: rest => parseWord (parse depth) impl token rest

/-- The calls of Parse behind the read loop. -/
def parseAll : Nat → ResultSetImpl → List Bytes → Option ResultSetImpl
  | _, impl, [] => some impl
  | 0, _, _ :: _ => none
  | n + 1, impl, token :: rest =>
      match parse (rest.length + 1) impl (token :: rest) with
      | none => none
      | some (impl, rest) => parseAll n impl rest

/-- What a call of Execute does: it waits, its result is undefined, or it returns and
leaves segments. -/
inductive Execution
  | waits
  | undefined
  | returns (impl : ResultSetImpl) (segments : List Bytes)

/-- Execute, behind the write of the command. -/
def execute (segments : List Bytes) : Execution :=
  match WhileLoop.run readRound (segments.length + 1) ⟨[], [], segments⟩ with
  | none => .waits
  | some none => .waits
  | some (some (tokens, segments)) =>
      match parseAll tokens.length ResultSetImpl.empty tokens with
      | none => .undefined
      | some impl => .returns impl segments

end Redis
end Gamnet
