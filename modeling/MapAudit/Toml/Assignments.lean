import MapAudit.Toml.Quoted

namespace MapAudit.Toml

inductive Scalar where
  | text (s : String)
  | integer (i : Int)
  | bool (b : Bool)
  deriving DecidableEq, Repr

def digit? (radix : Nat) (c : Char) : Option Nat := (Text.hexDigit? c).filter (· < radix)

/-- Further digits of a number; one underscore may stand before each. -/
def moreDigits (radix : Nat) : List Char → List Nat × List Char
  | [] => ([], [])
  | [c] =>
    match digit? radix c with
    | some d => ([d], [])
    | none => ([], [c])
  | b :: c :: cs =>
    match digit? radix b with
    | some d => let (ds, rest) := moreDigits radix (c :: cs); (d :: ds, rest)
    | none =>
      -- An underscore has to stand before another digit.
      match if b = '_' then digit? radix c else none with
      | some d => let (ds, rest) := moreDigits radix cs; (d :: ds, rest)
      | none => ([], b :: c :: cs)

def natural? (radix : Nat) : List Char → Option (Nat × List Char)
  | [] => none
  | c :: cs => do
    let d ← digit? radix c
    let (ds, rest) := moreDigits radix cs
    return (ds.foldl (· * radix + ·) d, rest)

/-- A decimal number: zero, or one that does not begin with zero. -/
def decimal? : List Char → Option (Nat × List Char)
  | '0' :: cs => some (0, cs)
  | cs => natural? 10 cs

def signed? : List Char → Option (Int × List Char)
  | '0' :: 'x' :: cs => (natural? 16 cs).map fun (n, rest) => (n, rest)
  | '0' :: 'o' :: cs => (natural? 8 cs).map fun (n, rest) => (n, rest)
  | '0' :: 'b' :: cs => (natural? 2 cs).map fun (n, rest) => (n, rest)
  | '+' :: cs => (decimal? cs).map fun (n, rest) => (n, rest)
  | '-' :: cs => (decimal? cs).map fun (n, rest) => (-n, rest)
  | cs => (decimal? cs).map fun (n, rest) => (n, rest)

def integer? (cs : List Char) : Option (Int × List Char) :=
  (signed? cs).filter fun (i, _) => Int64.minValue.toInt ≤ i && i ≤ Int64.maxValue.toInt

def value? : List Char → Option (Scalar × List Char)
  | '"' :: '"' :: '"' :: cs => (Style.read? ⟨'"', true⟩ cs).map fun (s, rest) => (.text s, rest)
  | '"' :: cs => (Style.read? ⟨'"', false⟩ cs).map fun (s, rest) => (.text s, rest)
  | '\'' :: '\'' :: '\'' :: cs =>
    (Style.read? ⟨'\'', true⟩ cs).map fun (s, rest) => (.text s, rest)
  | '\'' :: cs => (Style.read? ⟨'\'', false⟩ cs).map fun (s, rest) => (.text s, rest)
  | 't' :: 'r' :: 'u' :: 'e' :: cs => some (.bool true, cs)
  | 'f' :: 'a' :: 'l' :: 's' :: 'e' :: cs => some (.bool false, cs)
  | cs => (integer? cs).map fun (i, rest) => (.integer i, rest)

def isBare (c : Char) : Bool := c.isAlphanum || c == '_' || c == '-'

def key? : List Char → Option (String × List Char)
  | '"' :: cs => Style.read? ⟨'"', false⟩ cs
  | '\'' :: cs => Style.read? ⟨'\'', false⟩ cs
  | cs =>
    let (name, rest) := cs.span isBare
    if name.isEmpty then none else some (String.ofList name, rest)

def assignment? (cs : List Char) : Option ((String × Scalar) × List Char) := do
  let (key, rest) ← key? cs
  match rest.dropWhile isSpace with
  | '=' :: rest =>
    let (value, rest) ← value? (rest.dropWhile isSpace)
    return ((key, value), rest)
  | _ => none

/-- What follows the line once nothing but spaces and a comment is left of it. -/
def endLine? (cs : List Char) : Option (List Char) :=
  let rest :=
    match cs.dropWhile isSpace with
    | '#' :: cs => cs.dropWhile isPlain
    | cs => cs
  if rest.isEmpty then some [] else newline? rest

def document? : Nat → List Char → Option (List (String × Scalar))
  | _, [] => some []
  | 0, _ => none
  | fuel + 1, cs =>
    match endLine? cs with
    | some rest => document? fuel rest
    | none => do
      let (entry, rest) ← assignment? (cs.dropWhile isSpace)
      return entry :: (← document? fuel (← endLine? rest))

/-- The assignments of a document, which has no more lines than characters. A byte order mark may
begin it. -/
def assignments? (text : String) : Option (List (String × Scalar)) :=
  let cs := text.toList
  let cs := if cs.head? = some '\uFEFF' then cs.tail else cs
  document? cs.length cs

end MapAudit.Toml
