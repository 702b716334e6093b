import MapAudit.Json.Basic
import MapAudit.Json.Token

namespace MapAudit.Json

/-- A member as it is written; a key may spell no text. -/
abbrev Member := Option String × Json

/-- An array or object that waits for a value; what it holds so far comes newest first. -/
inductive Frame where
  | array (done : List Json)
  | object (done : List Member) (key : Option String)

/-- What may come next. -/
inductive Reader where
  | value (outer : List Frame)
  /-- After `[`. -/
  | firstItem (outer : List Frame)
  /-- After an opening brace. -/
  | firstKey (outer : List Frame)
  /-- After a comma between members. -/
  | key (done : List Member) (outer : List Frame)
  | colon (done : List Member) (key : Option String) (outer : List Frame)
  /-- A value is complete. -/
  | after (v : Json) (outer : List Frame)

namespace Reader

def ofText : Option String → Json
  | some s => .string s
  | none => .unpaired

/-- The object of the members, if all their keys spell texts. -/
def ofMembers (ms : List Member) : Json :=
  match ms.mapM fun (k, v) => k.map (·, v) with
  | some members => .object members
  | none => .unpaired

def beginValue (outer : List Frame) : Token → Option Reader
  | .null => some (.after .null outer)
  | .bool b => some (.after (.bool b) outer)
  | .number n => some (.after (.number n) outer)
  | .string s => some (.after (ofText s) outer)
  | .openArray => some (.firstItem outer)
  | .openObject => some (.firstKey outer)
  | _ => none

def step : Reader → Token → Option Reader
  | .value outer, t => beginValue outer t
  | .firstItem outer, .closeArray => some (.after (.array []) outer)
  | .firstItem outer, t => beginValue (.array [] :: outer) t
  | .firstKey outer, .closeObject => some (.after (.object []) outer)
  | .firstKey outer, .string k => some (.colon [] k outer)
  | .key done outer, .string k => some (.colon done k outer)
  | .colon done k outer, .colon => some (.value (.object done k :: outer))
  | .after v (.array done :: outer), .comma => some (.value (.array (v :: done) :: outer))
  | .after v (.array done :: outer), .closeArray =>
    some (.after (.array (v :: done).reverse) outer)
  | .after v (.object done k :: outer), .comma => some (.key ((k, v) :: done) outer)
  | .after v (.object done k :: outer), .closeObject =>
    some (.after (ofMembers ((k, v) :: done).reverse) outer)
  | _, _ => none

def run? (r : Reader) : List Token → Option Reader
  | [] => some r
  | t :: ts => (r.step t).bind (run? · ts)

end Reader

def ofTokens? (ts : List Token) : Option Json :=
  match (Reader.value []).run? ts with
  | some (.after v []) => some v
  | _ => none

def parse? (s : String) : Option Json := (Token.ofText? s).bind ofTokens?

end MapAudit.Json
