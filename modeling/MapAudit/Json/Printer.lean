import MapAudit.Json.Basic
import MapAudit.Json.Token

namespace MapAudit.Json

mutual

def tokens : Json → List Token
  | .null => [.null]
  | .bool b => [.bool b]
  | .number n => [.number n]
  | .string s => [.string (some s)]
  | .unpaired => [.string none]
  | .array items => .openArray :: (itemTokens items ++ [.closeArray])
  | .object members => .openObject :: (memberTokens members ++ [.closeObject])

def itemTokens : List Json → List Token
  | [] => []
  | v :: vs => tokens v ++ moreItemTokens vs

def moreItemTokens : List Json → List Token
  | [] => []
  | v :: vs => .comma :: (tokens v ++ moreItemTokens vs)

def memberTokens : List (String × Json) → List Token
  | [] => []
  | (k, v) :: ms => .string (some k) :: .colon :: (tokens v ++ moreMemberTokens ms)

def moreMemberTokens : List (String × Json) → List Token
  | [] => []
  | (k, v) :: ms => .comma :: .string (some k) :: .colon :: (tokens v ++ moreMemberTokens ms)

end

def compact (v : Json) : String := String.ofList (v.tokens.flatMap Token.text)

def indent (depth : Nat) : List Char := '\n' :: List.replicate (2 * depth) ' '

mutual

/-- The value over several lines, each level two spaces deeper than the last. -/
def prettyAt (depth : Nat) : Json → List Char
  | .array [] => ['[', ']']
  | .array (v :: vs) =>
    '[' :: (indent (depth + 1) ++ prettyAt (depth + 1) v ++ prettyItems (depth + 1) vs ++
      indent depth ++ [']'])
  | .object [] => ['{', '}']
  | .object ((k, v) :: ms) =>
    '{' :: (indent (depth + 1) ++ Token.quoted k ++ [':', ' '] ++ prettyAt (depth + 1) v ++
      prettyMembers (depth + 1) ms ++ indent depth ++ ['}'])
  | .null => Token.text .null
  | .bool b => Token.text (.bool b)
  | .number n => n.text
  | .string s => Token.quoted s
  | .unpaired => Token.text (.string none)

def prettyItems (depth : Nat) : List Json → List Char
  | [] => []
  | v :: vs => ',' :: (indent depth ++ prettyAt depth v ++ prettyItems depth vs)

def prettyMembers (depth : Nat) : List (String × Json) → List Char
  | [] => []
  | (k, v) :: ms =>
    ',' :: (indent depth ++ Token.quoted k ++ [':', ' '] ++ prettyAt depth v ++
      prettyMembers depth ms)

end

def pretty (v : Json) : String := String.ofList (v.prettyAt 0)

end MapAudit.Json
