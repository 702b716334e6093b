import MapAudit.Stream.Bytes
import MapAudit.Text.Basic

namespace MapAudit.Sha256

abbrev Word := UInt32

/-- Eight words that a block turns into eight others. -/
structure State where
  a : Word
  b : Word
  c : Word
  d : Word
  e : Word
  f : Word
  g : Word
  h : Word
  deriving DecidableEq, Repr

/-- The fractions of the square roots of the first eight primes. -/
def initial : State :=
  ⟨0x6a09e667, 0xbb67ae85, 0x3c6ef372, 0xa54ff53a, 0x510e527f, 0x9b05688c, 0x1f83d9ab, 0x5be0cd19⟩

/-- The fractions of the cube roots of the first 64 primes. -/
def constants : List Word :=
  [0x428a2f98, 0x71374491, 0xb5c0fbcf, 0xe9b5dba5, 0x3956c25b, 0x59f111f1, 0x923f82a4, 0xab1c5ed5,
    0xd807aa98, 0x12835b01, 0x243185be, 0x550c7dc3, 0x72be5d74, 0x80deb1fe, 0x9bdc06a7, 0xc19bf174,
    0xe49b69c1, 0xefbe4786, 0x0fc19dc6, 0x240ca1cc, 0x2de92c6f, 0x4a7484aa, 0x5cb0a9dc, 0x76f988da,
    0x983e5152, 0xa831c66d, 0xb00327c8, 0xbf597fc7, 0xc6e00bf3, 0xd5a79147, 0x06ca6351, 0x14292967,
    0x27b70a85, 0x2e1b2138, 0x4d2c6dfc, 0x53380d13, 0x650a7354, 0x766a0abb, 0x81c2c92e, 0x92722c85,
    0xa2bfe8a1, 0xa81a664b, 0xc24b8b70, 0xc76c51a3, 0xd192e819, 0xd6990624, 0xf40e3585, 0x106aa070,
    0x19a4c116, 0x1e376c08, 0x2748774c, 0x34b0bcb5, 0x391c0cb3, 0x4ed8aa4a, 0x5b9cca4f, 0x682e6ff3,
    0x748f82ee, 0x78a5636f, 0x84c87814, 0x8cc70208, 0x90befffa, 0xa4506ceb, 0xbef9a3f7, 0xc67178f2]

def rotateRight (x : Word) (n : Word) : Word := (x >>> n) ||| (x <<< (32 - n))

def nextWord (ws : Array Word) : Word :=
  let back (n : Nat) : Word := ws.getD (ws.size - n) 0
  let x := back 15
  let y := back 2
  let s := rotateRight x 7 ^^^ rotateRight x 18 ^^^ (x >>> 3)
  let t := rotateRight y 17 ^^^ rotateRight y 19 ^^^ (y >>> 10)
  back 16 + s + back 7 + t

def schedule (block : List Word) : Array Word :=
  (List.range 48).foldl (fun ws _ => ws.push (nextWord ws)) block.toArray

def round (s : State) (constant word : Word) : State :=
  let sum := rotateRight s.e 6 ^^^ rotateRight s.e 11 ^^^ rotateRight s.e 25
  let choice := (s.e &&& s.f) ^^^ (~~~s.e &&& s.g)
  let t := s.h + sum + choice + constant + word
  let sum' := rotateRight s.a 2 ^^^ rotateRight s.a 13 ^^^ rotateRight s.a 22
  let majority := (s.a &&& s.b) ^^^ (s.a &&& s.c) ^^^ (s.b &&& s.c)
  ⟨t + (sum' + majority), s.a, s.b, s.c, s.d + t, s.e, s.f, s.g⟩

def add (s t : State) : State :=
  ⟨s.a + t.a, s.b + t.b, s.c + t.c, s.d + t.d, s.e + t.e, s.f + t.f, s.g + t.g, s.h + t.h⟩

def compress (s : State) (block : List Word) : State :=
  let rounds := constants.zip (schedule block).toList
  add s (rounds.foldl (fun s (constant, word) => round s constant word) s)

/-- The bytes, a one bit, zeros up to 8 bytes before the end of a block, and the length in bits. -/
def pad (bytes : List UInt8) : List UInt8 :=
  let zeros := (119 - bytes.length % 64) % 64
  bytes ++ 0x80 :: (List.replicate zeros 0 ++ Stream.bytesOf 8 (8 * bytes.length))

def wordsOf : List UInt8 → List Word
  | a :: b :: c :: d :: rest =>
    (a.toUInt32 <<< 24 ||| b.toUInt32 <<< 16 ||| c.toUInt32 <<< 8 ||| d.toUInt32) :: wordsOf rest
  | _ => []

/-- The state after the first `n` blocks of the words. -/
def absorb : Nat → List Word → State → State
  | 0, _, s => s
  | n + 1, ws, s => absorb n (ws.drop 16) (compress s (ws.take 16))

def digest (bytes : List UInt8) : State :=
  let ws := wordsOf (pad bytes)
  absorb (ws.length / 16) ws initial

def State.text (s : State) : String :=
  String.ofList ([s.a, s.b, s.c, s.d, s.e, s.f, s.g, s.h].flatMap fun w => Text.hex 8 w.toNat)

def ofText (s : String) : String := (digest s.toUTF8.toList).text

end MapAudit.Sha256
