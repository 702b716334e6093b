import MapAudit.Json.Number
import MapAudit.Text.Basic

namespace MapAudit.Json

inductive Token where
  | openArray
  | closeArray
  | openObject
  | closeObject
  | comma
  | colon
  | null
  | bool (b : Bool)
  | number (n : Number)
  /-- A string literal; `none` when its escapes spell no text. -/
  | string (s : Option String)
  deriving DecidableEq, Repr

/-- One element of a string literal: a character, or a UTF-16 unit given by its number. -/
inductive Piece where
  | char (c : Char)
  | unit (n : Nat)
  deriving DecidableEq, Repr

/-- The character that stands for itself or for a control character after a backslash. -/
def shortEscape? : Char → Option Char
  | '"' => some '"'
  | '\\' => some '\\'
  | '/' => some '/'
  | 'b' => some '\x08'
  | 'f' => some '\x0c'
  | 'n' => some '\n'
  | 'r' => some '\r'
  | 't' => some '\t'
  | _ => none

/-- The elements of a string literal up to its closing quote, and what follows that. -/
def readPieces? : List Char → Option (List Piece × List Char)
  | [] => none
  | '"' :: cs => some ([], cs)
  | '\\' :: 'u' :: a :: b :: c :: d :: cs => do
    let n ← Text.hexValue? [a, b, c, d]
    let (ps, rest) ← readPieces? cs
    some (.unit n :: ps, rest)
  | '\\' :: e :: cs => do
    let c ← shortEscape? e
    let (ps, rest) ← readPieces? cs
    some (.char c :: ps, rest)
  | c :: cs =>
    if c < ' ' then none
    else do
      let (ps, rest) ← readPieces? cs
      some (.char c :: ps, rest)

def isHighSurrogate (n : Nat) : Bool := 0xD800 ≤ n && n < 0xDC00
def isLowSurrogate (n : Nat) : Bool := 0xDC00 ≤ n && n < 0xE000

def surrogatePair (high low : Nat) : Char :=
  Char.ofNat (0x10000 + (high - 0xD800) * 0x400 + (low - 0xDC00))

/-- The text the elements spell; `none` when a surrogate stands alone. -/
def joinPieces? : List Piece → Option (List Char)
  | [] => some []
  | .char c :: ps => (joinPieces? ps).map (c :: ·)
  | .unit n :: .unit m :: ps =>
    if isHighSurrogate n then
      if isLowSurrogate m then (joinPieces? ps).map (surrogatePair n m :: ·) else none
    else if isLowSurrogate n then none
    else (joinPieces? (.unit m :: ps)).map (Char.ofNat n :: ·)
  | .unit n :: ps =>
    if isHighSurrogate n || isLowSurrogate n then none
    else (joinPieces? ps).map (Char.ofNat n :: ·)

def isSpace (c : Char) : Bool := c == ' ' || c == '\t' || c == '\n' || c == '\r'

namespace Token

def read? : List Char → Option (Token × List Char)
  | '[' :: cs => some (.openArray, cs)
  | ']' :: cs => some (.closeArray, cs)
  | '{' :: cs => some (.openObject, cs)
  | '}' :: cs => some (.closeObject, cs)
  | ',' :: cs => some (.comma, cs)
  | ':' :: cs => some (.colon, cs)
  | 'n' :: 'u' :: 'l' :: 'l' :: cs => some (.null, cs)
  | 't' :: 'r' :: 'u' :: 'e' :: cs => some (.bool true, cs)
  | 'f' :: 'a' :: 'l' :: 's' :: 'e' :: cs => some (.bool false, cs)
  | '"' :: cs => do
    let (ps, rest) ← readPieces? cs
    some (.string ((joinPieces? ps).map String.ofList), rest)
  | cs => do
    let (n, rest) ← Number.read? cs
    some (.number n, rest)

/-- All tokens of a text, at most `fuel` of them. -/
def scan? : Nat → List Char → Option (List Token)
  | fuel, cs =>
    match cs.dropWhile isSpace with
    | [] => some []
    | c :: r =>
      match fuel with
      | 0 => none
      | fuel + 1 => do
        let (t, rest) ← read? (c :: r)
        let ts ← scan? fuel rest
        some (t :: ts)

def ofText? (s : String) : Option (List Token) := scan? s.toList.length s.toList

def hexChar (n : Nat) : Char := Nat.digitChar n

def escape (c : Char) : List Char :=
  if c = '"' then ['\\', '"']
  else if c = '\\' then ['\\', '\\']
  else if c = '\x08' then ['\\', 'b']
  else if c = '\t' then ['\\', 't']
  else if c = '\n' then ['\\', 'n']
  else if c = '\x0c' then ['\\', 'f']
  else if c = '\r' then ['\\', 'r']
  else if c < ' ' then ['\\', 'u', '0', '0', hexChar (c.toNat / 16), hexChar (c.toNat % 16)]
  else [c]

def quoted (s : String) : List Char := '"' :: (s.toList.flatMap escape ++ ['"'])

def text : Token → List Char
  | .openArray => ['[']
  | .closeArray => [']']
  | .openObject => ['{']
  | .closeObject => ['}']
  | .comma => [',']
  | .colon => [':']
  | .null => ['n', 'u', 'l', 'l']
  | .bool true => ['t', 'r', 'u', 'e']
  | .bool false => ['f', 'a', 'l', 's', 'e']
  | .number n => n.text
  -- Any half of a pair will do.
  | .string none => "\"\\ud800\"".toList
  | .string (some s) => quoted s

end Token

end MapAudit.Json
