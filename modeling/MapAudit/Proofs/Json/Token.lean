import Mathlib.Data.List.Chain
import Mathlib.Data.List.TakeWhile
import MapAudit.Json.Token
import MapAudit.Proofs.Json.Number

namespace MapAudit.Json

/-- The ways to write an element of a literal: as the character itself, by an escape of two signs, or
by the four digits of a UTF-16 unit. -/
inductive Piece.Written : Piece → List Char → Prop where
  | plain {c : Char} (hquote : c ≠ '"') (hslash : c ≠ '\\') (hc : ¬c < ' ') : Written (.char c) [c]
  | short {e c : Char} (h : shortEscape? e = some c) : Written (.char c) ['\\', e]
  | unit {a b c d : Char} {n : Nat} (h : Text.hexValue? [a, b, c, d] = some n) :
    Written (.unit n) ['\\', 'u', a, b, c, d]

def Piece.Spells (p : Piece) (c : Char) : Prop :=
  p = .char c ∨ p = .unit c.toNat ∧ c.toNat < 32

theorem joinPieces?_cons {p : Piece} {c : Char} (h : p.Spells c) (ps : List Piece) :
    joinPieces? (p :: ps) = (joinPieces? ps).map (c :: ·) := by
  rcases h with rfl | ⟨rfl, hc⟩
  · simp only [joinPieces?]
  · have hhigh : isHighSurrogate c.toNat = false := by
      simp [isHighSurrogate]
      omega
    have hlow : isLowSurrogate c.toNat = false := by
      simp [isLowSurrogate]
      omega
    cases ps with
    | nil => simp [joinPieces?, hhigh, hlow, Char.ofNat_toNat]
    | cons q qs => cases q <;> simp [joinPieces?, hhigh, hlow, Char.ofNat_toNat]

theorem readPieces?_of_plain {c : Char} (hquote : c ≠ '"') (hslash : c ≠ '\\') (hc : ¬c < ' ')
    (cs : List Char) :
    readPieces? (c :: cs) = (readPieces? cs).map fun (ps, rest) => (.char c :: ps, rest) := by
  rw [readPieces?.eq_def]
  split
  · next h => cases h
  · next h => exact absurd (List.cons.inj h).1 hquote
  · next h => exact absurd (List.cons.inj h).1 hslash
  · next h => exact absurd (List.cons.inj h).1 hslash
  · next h =>
    obtain ⟨rfl, rfl⟩ := List.cons.inj h
    rw [if_neg hc]
    cases readPieces? cs <;> rfl

theorem readPieces?_of_short {e c : Char} (hc : shortEscape? e = some c)
    (cs : List Char) :
    readPieces? ('\\' :: e :: cs) =
      (readPieces? cs).map fun (ps, rest) => (.char c :: ps, rest) := by
  rw [readPieces?.eq_def]
  split
  · next h => cases h
  · next h => cases h
  · next h =>
    obtain rfl := (List.cons.inj (List.cons.inj h).2).1
    cases hc
  · next h =>
    obtain ⟨rfl, rfl⟩ := List.cons.inj (List.cons.inj h).2
    rw [hc]
    cases readPieces? cs <;> rfl
  · next hslash h =>
    obtain ⟨hc, hcs⟩ := List.cons.inj h
    exact (hslash _ _ hc.symm hcs.symm).elim

/-- However an element is written it is read, and what follows it stays. -/
theorem readPieces?_written {p : Piece} {cs : List Char} (hp : p.Written cs) (rest : List Char) :
    readPieces? (cs ++ rest) = (readPieces? rest).map fun (ps, rest) => (p :: ps, rest) := by
  cases hp with
  | plain hquote hslash hc => exact readPieces?_of_plain hquote hslash hc rest
  | short h => exact readPieces?_of_short h rest
  | unit h =>
    simp only [List.cons_append, List.nil_append, readPieces?, h]
    cases readPieces? rest <;> rfl

inductive Literal : List Piece → List Char → Prop where
  | nil : Literal [] []
  | cons {p : Piece} {ps : List Piece} {cs ds : List Char} (hp : p.Written cs) (h : Literal ps ds) :
    Literal (p :: ps) (cs ++ ds)

theorem Literal.readPieces? {ps : List Piece} {cs : List Char} (h : Literal ps cs)
    (rest : List Char) : Json.readPieces? (cs ++ '"' :: rest) = some (ps, rest) := by
  induction h with
  | nil => rfl
  | cons hp _ ih =>
    rw [List.append_assoc, readPieces?_written hp, ih]
    rfl

theorem hexValue?_escape {n : Nat} (h : n < 32) :
    Text.hexValue? ['0', '0', Token.hexChar (n / 16), Token.hexChar (n % 16)] = some n := by
  revert n
  decide

/-- How a character is printed in a literal is one way to write an element that stands for it. -/
theorem written_escape (c : Char) : ∃ p : Piece, p.Spells c ∧ p.Written (Token.escape c) := by
  -- First the seven characters with an escape of two signs.
  by_cases h₁ : c = '"'
  · subst h₁
    exact ⟨.char '"', .inl rfl, .short rfl⟩
  by_cases h₂ : c = '\\'
  · subst h₂
    exact ⟨.char '\\', .inl rfl, .short rfl⟩
  by_cases h₃ : c = '\x08'
  · subst h₃
    exact ⟨.char '\x08', .inl rfl, .short rfl⟩
  by_cases h₄ : c = '\t'
  · subst h₄
    exact ⟨.char '\t', .inl rfl, .short rfl⟩
  by_cases h₅ : c = '\n'
  · subst h₅
    exact ⟨.char '\n', .inl rfl, .short rfl⟩
  by_cases h₆ : c = '\x0c'
  · subst h₆
    exact ⟨.char '\x0c', .inl rfl, .short rfl⟩
  by_cases h₇ : c = '\r'
  · subst h₇
    exact ⟨.char '\r', .inl rfl, .short rfl⟩
  -- The other control characters are written by number, all the rest as they are.
  unfold Token.escape
  rw [if_neg h₁, if_neg h₂, if_neg h₃, if_neg h₄, if_neg h₅, if_neg h₆, if_neg h₇]
  by_cases h₈ : c < ' '
  · have hlt : c.toNat < 32 := h₈
    rw [if_pos h₈]
    exact ⟨.unit c.toNat, .inr ⟨rfl, hlt⟩, .unit (hexValue?_escape hlt)⟩
  · rw [if_neg h₈]
    exact ⟨.char c, .inl rfl, .plain h₁ h₂ h₈⟩

theorem literal_escape (cs : List Char) :
    ∃ ps, Literal ps (cs.flatMap Token.escape) ∧ joinPieces? ps = some cs := by
  induction cs with
  | nil => exact ⟨[], .nil, rfl⟩
  | cons c cs ih =>
    obtain ⟨ps, hps, hjoin⟩ := ih
    obtain ⟨p, hp, hwritten⟩ := written_escape c
    refine ⟨p :: ps, .cons hwritten hps, ?_⟩
    rw [joinPieces?_cons hp, hjoin]
    rfl

namespace Token

def isNumber : Token → Bool
  | .number _ => true
  | _ => false

/-- The two tokens can be told apart where one stands right behind the other. -/
def Apart (a b : Token) : Prop := a.isNumber = true → b.isNumber = false

/-- The ways to write a token. Numbers and strings have several, all others one. -/
def Written : Token → List Char → Prop
  | .number n, cs => n.Written cs
  | .string s, cs => ∃ ps ds, Literal ps ds ∧ s = (joinPieces? ps).map String.ofList ∧
      cs = '"' :: (ds ++ ['"'])
  | t, cs => cs = t.text

/-- How a token is printed is one way to write it. -/
theorem written_text (t : Token) : t.Written t.text := by
  cases t with
  | number n => exact Number.written_text n
  | string s =>
    cases s with
    | none =>
      have hunit : Piece.Written (.unit 0xD800) ['\\', 'u', 'd', '8', '0', '0'] := .unit (by decide)
      exact ⟨_, _, .cons hunit .nil, by decide, rfl⟩
    | some s =>
      obtain ⟨ps, hps, hjoin⟩ := literal_escape s.toList
      refine ⟨ps, _, hps, ?_, rfl⟩
      rw [hjoin, Option.map_some, String.ofList_toList]
  | _ => rfl

theorem read?_of_numeral {c : Char} (h : c = '-' ∨ ∃ d : Decimal.Digit, c = d.toChar)
    (cs : List Char) :
    read? (c :: cs) = (Number.read? (c :: cs)).map fun (n, rest) => (.number n, rest) := by
  have hc : c ∉ ['[', ']', '{', '}', ',', ':', 'n', 't', 'f', '"'] := by
    rcases h with rfl | ⟨d, rfl⟩
    · decide
    · revert d
      decide
  simp only [List.mem_cons, List.not_mem_nil, or_false, not_or] at hc
  unfold read?
  split <;> first
    | (next heq => exact absurd (List.cons.inj heq).1 (by simp [hc]))
    | (cases Number.read? (c :: cs) <;> rfl)

variable {t : Token} {cs : List Char}

/-- However a token is written it is read, and what follows it stays. -/
theorem read?_written (ht : t.Written cs) {rest : List Char}
    (h : t.isNumber = true → Number.Stops rest) : read? (cs ++ rest) = some (t, rest) := by
  cases t with
  | number n =>
    have hread := Number.read?_written ht (h rfl)
    obtain ⟨c, ds, rfl, hc⟩ := Number.Written.eq_cons ht
    rw [List.cons_append] at hread ⊢
    rw [read?_of_numeral hc, hread]
    rfl
  | string s =>
    obtain ⟨ps, ds, hps, rfl, rfl⟩ := ht
    have hread := hps.readPieces? rest
    rw [List.cons_append, List.append_assoc, List.singleton_append]
    simp only [read?, hread, Option.bind_eq_bind, Option.bind_some]
  | bool b => cases b <;> cases ht <;> rfl
  | _ => cases ht; rfl

/-- No token begins with white space. -/
theorem Written.eq_cons (ht : t.Written cs) : ∃ c ds, cs = c :: ds ∧ isSpace c = false := by
  cases t with
  | number n =>
    obtain ⟨c, ds, htext, hc⟩ := Number.Written.eq_cons ht
    refine ⟨c, ds, htext, ?_⟩
    have hdigit : ∀ d : Decimal.Digit, isSpace d.toChar = false := by decide
    rcases hc with rfl | ⟨d, rfl⟩
    · rfl
    · exact hdigit d
  | string s =>
    obtain ⟨ps, ds, -, -, rfl⟩ := ht
    exact ⟨_, _, rfl, rfl⟩
  | bool b => cases b <;> cases ht <;> exact ⟨_, _, rfl, rfl⟩
  | _ => cases ht; exact ⟨_, _, rfl, rfl⟩

theorem Written.stops (ht : t.Written cs) (h : t.isNumber = false) (rest : List Char) :
    Number.Stops (cs ++ rest) := by
  intro c hc
  cases t with
  | number n => cases h
  | bool b => cases b <;> cases ht <;> cases hc <;> decide
  | string s =>
    obtain ⟨ps, ds, -, -, rfl⟩ := ht
    cases hc
    decide
  | _ => cases ht; cases hc; decide

/-- A white space character goes on with no number. -/
theorem stops_of_isSpace {c : Char} (h : isSpace c = true) (rest : List Char) :
    Number.Stops (c :: rest) := by
  have hc : c = ' ' ∨ c = '\t' ∨ c = '\n' ∨ c = '\r' := by simpa [isSpace, or_assoc] using h
  intro d hd
  cases hd
  rcases hc with rfl | rfl | rfl | rfl <;> decide

/-- The tokens are written one after the other, with any white space before, between and behind
them. -/
inductive Spread : List Token → List Char → Prop where
  | nil {space : List Char} (hspace : ∀ c ∈ space, isSpace c = true) : Spread [] space
  | cons {space : List Char} (hspace : ∀ c ∈ space, isSpace c = true) {t : Token}
      {cs : List Char} (ht : t.Written cs) {ts : List Token} {rest : List Char}
      (h : Spread ts rest) : Spread (t :: ts) (space ++ (cs ++ rest))

namespace Spread
variable {ts : List Token}

theorem stops (h : Spread ts cs) (hhead : ∀ t ∈ ts.head?, t.isNumber = false) :
    Number.Stops cs := by
  cases h with
  | nil hspace =>
    cases cs with
    | nil => exact fun c hc => by cases hc
    | cons c cs => exact stops_of_isSpace (hspace c List.mem_cons_self) cs
  | @cons space hspace t ds ht ts rest _ =>
    cases space with
    | nil => exact ht.stops (hhead t rfl) rest
    | cons c space => exact stops_of_isSpace (hspace c List.mem_cons_self) _

theorem scan? (h : Spread ts cs) (hchain : ts.IsChain Apart) {fuel : Nat}
    (hf : ts.length ≤ fuel) : Token.scan? fuel cs = some ts := by
  induction h generalizing fuel with
  | @nil space hspace =>
    unfold Token.scan?
    rw [List.dropWhile_eq_nil_iff.2 hspace]
  | @cons space hspace t cs ht ts rest h ih =>
    obtain ⟨fuel, rfl⟩ := Nat.exists_eq_succ_of_ne_zero (Nat.ne_of_gt (Nat.lt_of_lt_of_le
      (Nat.zero_lt_succ ts.length) hf))
    have hstops : t.isNumber = true → Number.Stops rest := fun hn =>
      h.stops fun u hu => (List.isChain_cons.1 hchain).1 u hu hn
    have hread := read?_written ht hstops
    obtain ⟨c, ds, rfl, hc⟩ := ht.eq_cons
    unfold Token.scan?
    rw [List.dropWhile_append_of_pos hspace, List.cons_append,
      List.dropWhile_cons_of_neg (by simp [hc])]
    rw [List.cons_append] at hread
    simp only [hread, Option.bind_eq_bind, Option.bind_some,
      ih hchain.tail (Nat.le_of_succ_le_succ hf)]

theorem length_le (h : Spread ts cs) : ts.length ≤ cs.length := by
  induction h with
  | nil => exact Nat.zero_le _
  | cons _ ht _ ih =>
    obtain ⟨c, ds, rfl, -⟩ := ht.eq_cons
    simp only [List.length_append, List.length_cons]
    omega

theorem ofText? {text : String} (h : Spread ts text.toList) (hchain : ts.IsChain Apart) :
    Token.ofText? text = some ts :=
  h.scan? hchain h.length_le

end Spread

/-- Tokens may be printed with white space before each of them. -/
theorem spread_text {space : List Char} (hspace : ∀ c ∈ space, isSpace c = true) (ts : List Token) :
    Spread ts (ts.flatMap fun t => space ++ t.text) := by
  induction ts with
  | nil => exact .nil fun c hc => nomatch hc
  | cons t ts ih =>
    rw [List.flatMap_cons, List.append_assoc]
    exact .cons hspace (written_text t) ih

end Token

end MapAudit.Json
