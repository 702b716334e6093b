import MapAudit.Database.Encoding
import MapAudit.Database.Header
import MapAudit.Database.Migration

namespace MapAudit
open MapAudit.Stream (Bytes)

structure DatabaseFile where
  header : Header := {}
  database : Database := .empty

namespace DatabaseFile

def toBytes (f : DatabaseFile) : Bytes := f.header.toBytes ++ f.database.encode.toUTF8.toList

def leaf : Nat := 13

/-- The file that others have made, if its first page holds no table. -/
def ofOthers? (h : Header) (content : Bytes) : Option DatabaseFile :=
  match Stream.numbers [1, 2, 2] (content.drop Header.size) with
  | [kind, _, rows] =>
    if kind = leaf ∧ rows = 0 then some { header := { h with pages := h.pageCount content.length } }
    else none
  | _ => none

/-- Whether what follows a header was written by this program: it is nothing or begins with a
brace. -/
def isOurs (h : Header) (rest : Bytes) : Bool :=
  h.program == Header.version && (rest.head?.getD 123) == 123

/-- The file with a content. One of at most one byte holds no database yet. -/
def ofBytes? : Bytes → Option DatabaseFile
  | [] | [_] => some {}
  | content => do
    let h ← Header.ofContent? content
    let rest := content.drop Header.size
    if isOurs h rest then return { header := h, database := ← Database.decode? rest }
    else if h.isReadable content.length then ofOthers? h content
    else none

end DatabaseFile

end MapAudit
