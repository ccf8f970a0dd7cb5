import Gamnet.Json.Value

/-!
# Json::Reader

The recursive descent parser for JSON, with the default features: comments are skipped, and what
is behind the value is not looked at.
-/

namespace Gamnet
namespace Json
namespace Reader

/-- Why there is no value: parse returns false, throwRuntimeError, or a number that is not an
integer. Doubles are left out. -/
inductive Failure
  | error
  | stackLimit
  | double
deriving DecidableEq

/-- The tokens, without quotes around a string. -/
inductive Token
  | objectBegin
  | objectEnd
  | arrayBegin
  | arrayEnd
  | string (content : Text)
  | number (text : Text)
  | true
  | false
  | null
  | arraySeparator
  | memberSeparator
  | comment
  | endOfStream
  | error
deriving DecidableEq

def isSpace (c : Char) : Bool :=
  c = ' ' || c = '\t' || c = '\r' || c = '\n'

def skipSpaces (text : Text) : Text :=
  text.dropWhile isSpace

/-- readString, behind the quote: what is in front of the next quote without a backslash. -/
def readString : Text → Option (Text × Text)
  | [] => none
  | '"' :: rest => some ([], rest)
  | ['\\'] => none
  | '\\' :: c :: rest => (readString rest).map fun r => ('\\' :: c :: r.1, r.2)
  | c :: rest => (readString rest).map fun r => (c :: r.1, r.2)

/-- readNumber, behind the first character. -/
def readNumber (text : Text) : Text × Text :=
  let integral := text.takeWhile Char.isDigit
  let rest := text.dropWhile Char.isDigit
  let (fractional, rest) :=
    match rest with
    | '.' :: rest => ('.' :: rest.takeWhile Char.isDigit, rest.dropWhile Char.isDigit)
    | _ => ([], rest)
  let (exponential, rest) :=
    match rest with
    | e :: sign :: rest =>
        if e = 'e' || e = 'E' then
          if sign = '+' || sign = '-' then
            (e :: sign :: rest.takeWhile Char.isDigit, rest.dropWhile Char.isDigit)
          else (e :: (sign :: rest).takeWhile Char.isDigit, (sign :: rest).dropWhile Char.isDigit)
        else ([], e :: sign :: rest)
    | [e] => if e = 'e' || e = 'E' then ([e], []) else ([], [e])
    | [] => ([], [])
  (integral ++ fractional ++ exponential, rest)

/-- readCStyleComment, behind the star. -/
def readCStyleComment : Text → Bool × Text
  | '*' :: '/' :: rest => (.true, rest)
  | _ :: rest => readCStyleComment rest
  | [] => (.false, [])

/-- readCppStyleComment, behind the slashes. -/
def readCppStyleComment : Text → Text
  | '\n' :: rest => rest
  | '\r' :: '\n' :: rest => rest
  | '\r' :: rest => rest
  | _ :: rest => readCppStyleComment rest
  | [] => []

/-- readComment, behind the slash. -/
def readComment : Text → Bool × Text
  | '*' :: rest => readCStyleComment rest
  | '/' :: rest => (.true, readCppStyleComment rest)
  | _ :: rest => (.false, rest)
  | [] => (.false, [])

/-- match, with the token of the word whose first character was read. -/
def matchWord (pattern : Text) (token : Token) (text : Text) : Token × Text :=
  if pattern.isPrefixOf text then (token, text.drop pattern.length) else (.error, text)

def readToken (text : Text) : Token × Text :=
  match skipSpaces text with
  | [] => (.endOfStream, [])
  | '{' :: rest => (.objectBegin, rest)
  | '}' :: rest => (.objectEnd, rest)
  | '[' :: rest => (.arrayBegin, rest)
  | ']' :: rest => (.arrayEnd, rest)
  | '"' :: rest =>
      match readString rest with
      | some (content, rest) => (.string content, rest)
      | none => (.error, [])
  | '/' :: rest =>
      match readComment rest with
      | (.true, rest) => (.comment, rest)
      | (.false, rest) => (.error, rest)
  | 't' :: rest => matchWord ['r', 'u', 'e'] .true rest
  | 'f' :: rest => matchWord ['a', 'l', 's', 'e'] .false rest
  | 'n' :: rest => matchWord ['u', 'l', 'l'] .null rest
  | ',' :: rest => (.arraySeparator, rest)
  | ':' :: rest => (.memberSeparator, rest)
  | '\x00' :: rest => (.endOfStream, rest)
  | c :: rest =>
      if c.isDigit || c = '-' then (.number (c :: (readNumber rest).1), (readNumber rest).2)
      else (.error, rest)

/-- readToken, behind at most so many comments. -/
def skipCommentTokens : Nat → Text → Token × Text
  | 0, text => readToken text
  | n + 1, text =>
      match readToken text with
      | (.comment, rest) => skipCommentTokens n rest
      | (token, rest) => (token, rest)

/-- The next token that is not a comment. Each comment has characters. -/
def nextToken (text : Text) : Token × Text :=
  skipCommentTokens text.length text

/-- What the escapes of one character stand for. -/
def escapes : List (Char × Char) :=
  [('"', '"'), ('/', '/'), ('\\', '\\'), ('b', '\x08'), ('f', '\x0c'), ('n', '\n'), ('r', '\r'),
    ('t', '\t')]

def hexDigit (c : Char) : Option Nat :=
  if '0' ≤ c && c ≤ '9' then some (c.toNat - '0'.toNat)
  else if 'a' ≤ c && c ≤ 'f' then some (c.toNat - 'a'.toNat + 10)
  else if 'A' ≤ c && c ≤ 'F' then some (c.toNat - 'A'.toNat + 10)
  else none

/-- decodeUnicodeEscapeSequence -/
def decodeUnicodeEscapeSequence (a b c d : Char) : Option Nat := do
  let a ← hexDigit a
  let b ← hexDigit b
  let c ← hexDigit c
  let d ← hexDigit d
  pure (((a * 16 + b) * 16 + c) * 16 + d)

def codePointToUTF8 (cp : Nat) : Text :=
  if cp ≤ 0x7F then [Char.ofNat cp]
  else if cp ≤ 0x7FF then [Char.ofNat (0xC0 + cp / 2 ^ 6), Char.ofNat (0x80 + cp % 2 ^ 6)]
  else if cp ≤ 0xFFFF then
    [Char.ofNat (0xE0 + cp / 2 ^ 12), Char.ofNat (0x80 + cp / 2 ^ 6 % 2 ^ 6),
      Char.ofNat (0x80 + cp % 2 ^ 6)]
  else if cp ≤ 0x10FFFF then
    [Char.ofNat (0xF0 + cp / 2 ^ 18), Char.ofNat (0x80 + cp / 2 ^ 12 % 2 ^ 6),
      Char.ofNat (0x80 + cp / 2 ^ 6 % 2 ^ 6), Char.ofNat (0x80 + cp % 2 ^ 6)]
  else []

/-- The first half of a surrogate pair. -/
def isHighSurrogate (unicode : Nat) : Bool :=
  0xD800 ≤ unicode && unicode ≤ 0xDBFF

/-- The code point of a surrogate pair. -/
def surrogatePair (unicode low : Nat) : Nat :=
  0x10000 + unicode % 2 ^ 10 * 2 ^ 10 + low % 2 ^ 10

/-- decodeString, for what is between the quotes. -/
def decodeString : Text → Option Text
  | [] => some []
  | '"' :: _ => some []
  | '\\' :: 'u' :: a :: b :: c :: d :: rest =>
      match decodeUnicodeEscapeSequence a b c d with
      | none => none
      | some unicode =>
          if isHighSurrogate unicode then
            match rest with
            | '\\' :: 'u' :: e :: f :: g :: h :: rest =>
                match decodeUnicodeEscapeSequence e f g h with
                | none => none
                | some low =>
                    (decodeString rest).map (codePointToUTF8 (surrogatePair unicode low) ++ ·)
            | _ => none
          else (decodeString rest).map (codePointToUTF8 unicode ++ ·)
  | '\\' :: escape :: rest =>
      match escapes.lookup escape with
      | some c => (decodeString rest).map (c :: ·)
      | none => none
  | ['\\'] => none
  | c :: rest => (decodeString rest).map (c :: ·)

/-- The loop of decodeNumber, up to the number that value must not exceed. There is no result
where it goes on with decodeDouble. -/
def decodeDigits (maxIntegerValue : Nat) : Nat → Text → Option Nat
  | value, [] => some value
  | value, c :: rest =>
      let digit := c.toNat - '0'.toNat
      if !c.isDigit then none
      else if maxIntegerValue / 10 ≤ value &&
          (maxIntegerValue / 10 < value || !rest.isEmpty || maxIntegerValue % 10 < digit) then
        none
      else decodeDigits maxIntegerValue (value * 10 + digit) rest

def decodeNumber (token : Text) : Except Failure Value :=
  match token with
  | '-' :: digits =>
      match decodeDigits (Value.maxLargestInt + 1) 0 digits with
      | some value =>
          if value = Value.maxLargestInt + 1 then .ok (.int Int64.minValue)
          else .ok (.int (Int64.ofInt (-value)))
      | none => .error .double
  | digits =>
      match decodeDigits Value.maxLargestUInt 0 digits with
      | some value =>
          if value ≤ Value.maxInt then .ok (.int (Int64.ofNat value))
          else .ok (.uint (UInt64.ofNat value))
      | none => .error .double

section Containers

-- readValue for what is inside
variable (readValue : Text → Except Failure (Value × Text))

/-- The loop of readArray, for at most so many elements. -/
def readElements : Nat → Text → Except Failure (List Value × Text)
  | 0, _ => .error .error
  | n + 1, text => do
      let (value, rest) ← readValue text
      match nextToken rest with
      | (.arrayEnd, rest) => pure ([value], rest)
      | (.arraySeparator, rest) =>
          let (list, rest) ← readElements n rest
          pure (value :: list, rest)
      | _ => .error .error

/-- readArray, behind the bracket. -/
def readArray (text : Text) : Except Failure (Value × Text) :=
  match skipSpaces text with
  | ']' :: rest => .ok (.array [], rest)
  | rest => do
      let (list, rest) ← readElements readValue (rest.length + 1) rest
      pure (.array list, rest)

/-- A member of an object: its name, the colon and its value. -/
def readMember (text : Text) : Except Failure ((Text × Value) × Text) :=
  match nextToken text with
  | (.string content, rest) =>
      match decodeString content with
      | none => .error .error
      | some name =>
          match readToken rest with
          | (.memberSeparator, rest) => do
              let (value, rest) ← readValue rest
              pure ((name, value), rest)
          | _ => .error .error
  | _ => .error .error

/-- Whether the object goes on behind a member. Behind a comment any token is taken for a
comma. -/
def readComma (text : Text) : Except Failure (Bool × Text) :=
  match readToken text with
  | (.objectEnd, rest) => .ok (.false, rest)
  | (.arraySeparator, rest) => .ok (.true, rest)
  | (.comment, rest) =>
      match nextToken rest with
      | (.objectEnd, rest) => .ok (.false, rest)
      | (_, rest) => .ok (.true, rest)
  | _ => .error .error

/-- The loop of readObject, for at most so many members, with the name of the last one. -/
def readMembers : Nat → Text → Members → Text → Except Failure (Members × Text)
  | 0, _, _, _ => .error .error
  | n + 1, name, members, text =>
      match nextToken text with
      | (.objectEnd, rest) => if name.isEmpty then .ok (members, rest) else .error .error
      | _ => do
          let (m, rest) ← readMember readValue text
          let members := Value.insert m.1 m.2 members
          let (more, rest) ← readComma rest
          if more then readMembers n m.1 members rest else pure (members, rest)

/-- readObject, behind the brace. -/
def readObject (text : Text) : Except Failure (Value × Text) := do
  let (members, rest) ← readMembers readValue (text.length + 1) [] [] text
  pure (.object members, rest)

end Containers

/-- readValue, with what is left of stackLimit_g. -/
def readValue : Nat → Text → Except Failure (Value × Text)
  | 0, _ => .error .stackLimit
  | depth + 1, text =>
      match nextToken text with
      | (.objectBegin, rest) => readObject (readValue depth) rest
      | (.arrayBegin, rest) => readArray (readValue depth) rest
      | (.number token, rest) => do
          let value ← decodeNumber token
          pure (value, rest)
      | (.string content, rest) =>
          match decodeString content with
          | some text => .ok (.string text, rest)
          | none => .error .error
      | (.true, rest) => .ok (.boolean true, rest)
      | (.false, rest) => .ok (.boolean false, rest)
      | (.null, rest) => .ok (.null, rest)
      | _ => .error .error

def stackLimit : Nat := 1000

/-- parse, for a text that is copied with all of its capacity: what is behind it there is read,
too. -/
def parse (document capacity : Text) : Except Failure Value := do
  let (value, _) ← readValue stackLimit (document ++ capacity)
  pure value

end Reader
end Json
end Gamnet
