import MapAudit.Json.Number

namespace MapAudit

inductive Json where
  | null
  | bool (b : Bool)
  | number (n : Json.Number)
  | string (s : String)
  /-- A string literal that escapes half of a surrogate pair, or an object with such a key. It
  spells no value, but where a value is passed over it may stand. -/
  | unpaired
  | array (items : List Json)
  | object (members : List (String × Json))
  deriving Repr

namespace Json

def int (i : Int) : Json := .number (.ofInt i)
def int64 (i : Int64) : Json := int i.toInt
def nat (n : Nat) : Json := .number (.ofNat n)

/-- An absent value is written `null`. -/
def option (f : α → Json) : Option α → Json
  | none => .null
  | some a => f a

def list (f : α → Json) (as : List α) : Json := .array (as.map f)

end Json

end MapAudit
