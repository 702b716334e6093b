import MapAudit.Text.Basic

namespace MapAudit.Toml

def isSpace (c : Char) : Bool := c == ' ' || c == '\t'

def isPlain (c : Char) : Bool := c == '\t' || (' ' ≤ c && c ≠ '\x7f')

/-- What follows a line end: a line feed, with or without a carriage return before it. -/
def newline? : List Char → Option (List Char)
  | '\n' :: cs => some cs
  | '\r' :: '\n' :: cs => some cs
  | _ => none

/-- The text without the spaces and line ends it begins with. -/
def dropGap : List Char → List Char
  | ' ' :: cs | '\t' :: cs | '\n' :: cs | '\r' :: '\n' :: cs => dropGap cs
  | cs => cs

structure Style where
  quote : Char
  multiline : Bool

namespace Style

def escapes (s : Style) : Bool := s.quote == '"'

/-- What stands between the quotes, and what follows. The opening quotes are read already. Up to two
quotes may stand before the three that close a multi-line string. -/
def cut? (s : Style) : List Char → Option (List Char × List Char)
  | [] => none
  | '\\' :: c :: cs =>
    if s.escapes then (s.cut? cs).map fun (raw, rest) => ('\\' :: c :: raw, rest)
    else (s.cut? (c :: cs)).map fun (raw, rest) => ('\\' :: raw, rest)
  | c :: cs =>
    if c = s.quote ∧ !s.multiline then some ([], cs)
    else if c = s.quote ∧ cs.take 2 = [c, c] then
      let extra := ((cs.drop 2).take 2).takeWhile (· = c)
      some (extra, cs.drop (2 + extra.length))
    else (s.cut? cs).map fun (raw, rest) => (c :: raw, rest)

def shortEscape? : Char → Option Char
  | '"' => some '"'
  | '\\' => some '\\'
  | 'b' => some '\x08'
  | 'f' => some '\x0c'
  | 'n' => some '\n'
  | 'r' => some '\r'
  | 't' => some '\t'
  | _ => none

/-- The character whose number is given by the first `width` digits. -/
def scalar? (width : Nat) (cs : List Char) : Option (List Char × List Char) := do
  let n ← Text.hexValue? (cs.take width)
  if width ≤ cs.length ∧ n.isValidChar then some ([Char.ofNat n], cs.drop width) else none

/-- What stands for the characters after a backslash, and what follows. In a multi-line string a
backslash at the end of a line takes the gap up to the next text away. -/
def escape? (s : Style) : List Char → Option (List Char × List Char)
  | 'u' :: cs => scalar? 4 cs
  | 'U' :: cs => scalar? 8 cs
  | [] => none
  | c :: cs =>
    match shortEscape? c with
    | some d => some ([d], cs)
    | none =>
      if s.multiline then
        (newline? ((c :: cs).dropWhile isSpace)).map fun rest => ([], dropGap rest)
      else none

def piece? (s : Style) : List Char → Option (List Char × List Char)
  | [] => none
  | c :: cs =>
    if c = '\\' ∧ s.escapes then s.escape? cs
    else if isPlain c then some ([c], cs)
    else if s.multiline then (newline? (c :: cs)).map fun rest => (['\n'], rest)
    else none

def decode? (s : Style) : Nat → List Char → Option (List Char)
  | _, [] => some []
  | 0, _ => none
  | fuel + 1, cs => do
    let (piece, rest) ← s.piece? cs
    return piece ++ (← s.decode? fuel rest)

/-- The string after its opening quotes, and what follows its closing ones. A line end right after
three opening quotes does not count. -/
def read? (s : Style) (cs : List Char) : Option (String × List Char) := do
  let cs := if s.multiline then (newline? cs).getD cs else cs
  let (raw, rest) ← s.cut? cs
  return (String.ofList (← s.decode? raw.length raw), rest)

end Style

end MapAudit.Toml
