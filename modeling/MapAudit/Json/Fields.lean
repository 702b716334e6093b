import MapAudit.Json.Basic

namespace MapAudit.Json

structure Fields where
  /-- Whether the record was written as an array. -/
  byPosition : Bool
  given : List (String × Json)

/-- What a text that spells one of the known names gives for it. -/
def known (names : List String) (members : List (String × Json)) : List (String × Json) :=
  members.filter fun m => names.contains m.1

def fields? (names : List String) : Json → Option Fields
  | .object members =>
    let given := known names members
    if (given.map Prod.fst).Nodup then some ⟨false, given⟩ else none
  | .array items => if items.length ≤ names.length then some ⟨true, names.zip items⟩ else none
  | _ => none

def nullable? (read : Json → Option α) : Json → Option (Option α)
  | .null => some none
  | v => (read v).map some

namespace Fields

def required? (f : Fields) (name : String) (read : Json → Option α) : Option α :=
  (f.given.lookup name).bind read

/-- A field that an object may leave out; it is absent then, as it is when written `null`. -/
def optional? (f : Fields) (name : String) (read : Json → Option α) : Option (Option α) :=
  match f.given.lookup name with
  | some v => nullable? read v
  | none => if f.byPosition then none else some none

def withDefault? (f : Fields) (name : String) (fallback : α) (read : Json → Option α) : Option α :=
  match f.given.lookup name with
  | some v => read v
  | none => some fallback

end Fields

def toBool? : Json → Option Bool
  | .bool b => some b
  | _ => none

def toText? : Json → Option String
  | .string s => some s
  | _ => none

def toInt? : Json → Option Int
  | .number n => n.toInt?
  | _ => none

def toInt64? : Json → Option Int64
  | .number n => n.toInt64?
  | _ => none

def toNat64? : Json → Option Nat
  | .number n => n.toNat64?
  | _ => none

def toList? (read : Json → Option α) : Json → Option (List α)
  | .array items => items.mapM read
  | _ => none

/-- The name of an alternative without content: a string, or an object with that one key and
`null`. -/
def toName? : Json → Option String
  | .string s => some s
  | .object [(k, .null)] => some k
  | _ => none

end MapAudit.Json
