namespace MapAudit.Stream

abbrev Bytes := List UInt8

def bytesOf (width n : Nat) : Bytes :=
  (List.range width).reverse.map fun i => UInt8.ofNat (n / Nat.pow 256 i)

def number (bs : Bytes) : Nat := bs.foldl (fun n b => 256 * n + b.toNat) 0

/-- The numbers of given widths that stand one after another. -/
def numbers : List Nat → Bytes → List Nat
  | [], _ => []
  | width :: widths, bs => number (bs.take width) :: numbers widths (bs.drop width)

/-- All parts between marks; there is one more of them than there are marks. -/
def parts (mark : UInt8) (bs : Bytes) : List Bytes :=
  bs.foldr
    (fun b parts =>
      match parts with
      | part :: rest => if b = mark then [] :: part :: rest else (b :: part) :: rest
      | [] => [[b]])
    [[]]

def cut (mark : UInt8) (bs : Bytes) : Bytes × Bytes :=
  (bs.takeWhile (· ≠ mark), (bs.dropWhile (· ≠ mark)).drop 1)

def lineFeed : UInt8 := 10
def carriageReturn : UInt8 := 13

/-- The lines cut off so far and the line that is still open, both newest first. -/
structure Cut where
  done : List Bytes := []
  rest : Bytes := []

namespace Cut

def step (c : Cut) (b : UInt8) : Cut :=
  if b = lineFeed then ⟨(b :: c.rest).reverse :: c.done, []⟩ else ⟨c.done, b :: c.rest⟩

def lines (c : Cut) : List Bytes :=
  -- A line that is still open counts unless it is empty.
  (if c.rest.isEmpty then c.done else c.rest.reverse :: c.done).reverse

end Cut

/-- The lines of the bytes, each with the line feed that ends it. -/
def lines (bs : Bytes) : List Bytes := (bs.foldl Cut.step {}).lines

/-- A line without its end: the line feed and one carriage return before it. -/
def content (line : Bytes) : Bytes :=
  match line.reverse with
  | b :: c :: bs =>
    if b = lineFeed then if c = carriageReturn then bs.reverse else (c :: bs).reverse else line
  | [b] => if b = lineFeed then [] else line
  | [] => []

def text? (line : Bytes) : Option String := String.fromUTF8? ⟨(content line).toArray⟩

end MapAudit.Stream
