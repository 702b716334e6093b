import MapAudit.Stream.Bytes

namespace MapAudit
open MapAudit.Stream (Bytes)

/-- How full pages are; these shares are the only ones that are in use. -/
def Header.commonShares : Nat := Stream.number [64, 32, 32]

structure Header where
  pageSize : Nat := 4096
  /-- A file of a version that is too high may only be read. -/
  writeVersion : Nat := 1
  /-- It tells whether the file goes with a log. -/
  readVersion : Nat := 1
  /-- The number of bytes at the end of a page that are not used. -/
  reserved : Nat := 0
  shares : Nat := Header.commonShares
  writings : Nat := 0
  pages : Nat := 1
  freeList : Nat := 0
  freePages : Nat := 0
  /-- The number of changes of what is defined. -/
  definitions : Nat := 0
  format : Nat := 0
  cacheSize : Nat := 0
  /-- The greatest page that begins a table, in a file that keeps itself small. -/
  greatestRoot : Nat := 0
  textEncoding : Nat := 0
  userVersion : Nat := 0
  /-- Whether free pages of such a file stay until they are asked for. -/
  shrinksLater : Nat := 0
  application : Nat := 0
  unused : Nat := 0
  /-- The writing at which the pages were counted. -/
  counted : Nat := 0
  program : Nat := 0
  deriving DecidableEq, Repr

namespace Header

/-- The text that files of databases begin with, and a zero. -/
def magic : Nat := Stream.number ("SQLite format 3\x00".toUTF8.toList)

def version : Nat := 3041002

def size : Nat := 100

def fields (h : Header) : List (Nat × Nat) :=
  [(16, magic), (2, h.pageSize), (1, h.writeVersion), (1, h.readVersion), (1, h.reserved),
    (3, h.shares), (4, h.writings), (4, h.pages), (4, h.freeList), (4, h.freePages),
    (4, h.definitions), (4, h.format), (4, h.cacheSize), (4, h.greatestRoot),
    (4, h.textEncoding), (4, h.userVersion), (4, h.shrinksLater), (4, h.application),
    (20, h.unused), (4, h.counted), (4, h.program)]

def toBytes (h : Header) : Bytes := h.fields.flatMap fun (width, n) => Stream.bytesOf width n

def ofBytes? (bs : Bytes) : Option Header :=
  match Stream.numbers ((fields {}).map Prod.fst) bs with
  | [m, pageSize, writeVersion, readVersion, reserved, shares, writings, pages, freeList, freePages,
      definitions, format, cacheSize, greatestRoot, textEncoding, userVersion, shrinksLater,
      application, unused, counted, program] =>
    if m = magic then
      some {
        pageSize, writeVersion, readVersion, reserved, shares, writings, pages, freeList, freePages,
        definitions, format, cacheSize, greatestRoot, textEncoding, userVersion, shrinksLater,
        application, unused, counted, program }
    else none
  | _ => none

/-- The header of a file, which goes on with zeros if it is too short. -/
def ofContent? (content : Bytes) : Option Header :=
  ofBytes? (content ++ List.replicate size 0)

/-- The number of bytes in a page. The greatest size, which does not fit in two bytes, is written
as one. -/
def pageBytes (h : Header) : Nat := 256 * (h.pageSize / 256) + 65536 * (h.pageSize % 256)

def usable (h : Header) : Nat := h.pageBytes - h.reserved

/-- The number of pages, which the header knows if it is of the last writing. -/
def pageCount (h : Header) (fileSize : Nat) : Nat :=
  if h.pages ≠ 0 ∧ h.writings = h.counted then h.pages
  else (fileSize + h.pageBytes - 1) / h.pageBytes

def isReadable (h : Header) (fileSize : Nat) : Bool :=
  h.readVersion ≤ 2 && h.shares == commonShares &&
    [512, 1024, 2048, 4096, 8192, 16384, 32768, 65536].contains h.pageBytes &&
    480 ≤ h.usable && h.format % 256 ≤ 4 &&
    h.pageCount fileSize ≤ (fileSize + h.pageBytes - 1) / h.pageBytes

def isFrozen (h : Header) : Bool := 2 < h.writeVersion

def hasLog (h : Header) : Bool := h.readVersion == 2

def written (h : Header) (times : Nat) : Header :=
  let n := (h.writings + times) % UInt32.size
  { h with writings := n, counted := n, program := version }

def withLog (h : Header) : Header := { h.written 1 with writeVersion := 2, readVersion := 2 }

/-- The header after the tables and indexes were defined, each of which begins a page. -/
def defined (h : Header) : Header :=
  { h with
    pages := 12
    definitions := (h.definitions + 8) % UInt32.size
    format := if h.format = 0 then 4 else h.format
    textEncoding := if h.textEncoding = 0 then 1 else h.textEncoding }

end Header

end MapAudit
