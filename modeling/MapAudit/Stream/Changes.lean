import MapAudit.Change.Encoding
import MapAudit.Failure
import MapAudit.Stream.Bytes
import MapAudit.Text.Basic

namespace MapAudit.Stream

abbrev Item := Except Failure (Action × Snapshot)

def ofJson? (v : Json) : Option (String × Snapshot) := do
  let f ← v.fields? ["action", "entity"]
  return (← f.required? "action" Json.toText?, ← f.required? "entity" (Codec.ofJson? 1))

/-- The failure of a line that spells no change, and the words that say why. -/
def malformed (number : Nat) (reason : String) : Failure where
  kind := .serialization
  operation := "read_changes"
  message := s!"line {number}: {reason}"

def notText : Failure := .inputOutput "read_changes" "stream did not contain valid UTF-8"

/-- Words for any text that spells no change. What a reader of JSON says of a text is left open:
whatever reads lines may be given other words. -/
def unexplained (_text : String) : String := "not the encoding of a change"

/-- The change on the line of the given number; `reason` says why a text spells none. -/
def parse (reason : String → String) (number : Nat) (text : String) : Item :=
  match (Json.parse? text).bind ofJson? with
  | none => .error (malformed number (reason text))
  | some (name, entity) =>
    match Action.parse name with
    | .ok action => .ok (action, entity)
    | .error r => .error ({ r.toFailure with operation := "read_changes" }.withEntity entity.key)

/-- The number of lines that were text, and what they gave, newest first. -/
structure Progress where
  number : Nat := 0
  items : List Item := []

/-- Lines that are not text give a failure and go without number. -/
def Progress.step (reason : String → String) (p : Progress) (line : Bytes) : Progress :=
  match text? line with
  | none => { p with items := .error notText :: p.items }
  | some text =>
    let number := p.number + 1
    if Text.isBlankText text then { p with number }
    else { number, items := parse reason number text :: p.items }

def items (bs : Bytes) (reason : String → String := unexplained) : List Item :=
  ((lines bs).foldl (Progress.step reason) {}).items.reverse

end MapAudit.Stream
