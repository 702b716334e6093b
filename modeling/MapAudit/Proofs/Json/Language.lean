import MapAudit.Proofs.Json.Grammar

namespace MapAudit

namespace Decimal

theorem Digit.eq_toChar {c : Char} {d : Digit} (h : ofChar? c = some d) : c = d.toChar := by
  unfold ofChar? at h
  split at h
  · next hc =>
    have hle : c.toNat - '0'.toNat < 10 := by
      have hnine : '9'.toNat = '0'.toNat + 9 := rfl
      omega
    obtain rfl := Option.some.inj h
    change c = Nat.digitChar (c.toNat - '0'.toNat)
    rw [← Char.toNat_inj, Nat.toNat_digitChar_of_lt_ten hle]
    exact (Nat.add_sub_cancel' hc.1).symm
  · cases h

theorem takeDigits_eq {cs rest : List Char} {ds : List Digit} (h : takeDigits cs = (ds, rest)) :
    cs = text ds ++ rest := by
  induction cs generalizing ds with
  | nil =>
    cases h
    rfl
  | cons c cs ih =>
    unfold takeDigits at h
    cases hc : Digit.ofChar? c with
    | none =>
      rw [hc] at h
      cases h
      rfl
    | some d =>
      rw [hc] at h
      cases h
      rw [Digit.eq_toChar hc]
      exact congrArg (d.toChar :: ·) (ih rfl)

/-- Where at least one digit is asked for. -/
theorem exists_of_takeDigits {α : Type} {cs : List Char} {read : List Digit → List Char → Option α}
    {a : α}
    (h : (match takeDigits cs with
      | ([], _) => none
      | (ds, rest) => read ds rest) = some a) :
    ∃ ds rest, ds ≠ [] ∧ cs = text ds ++ rest ∧ read ds rest = some a := by
  cases htake : takeDigits cs with
  | mk ds rest =>
    rw [htake] at h
    cases ds with
    | nil => cases h
    | cons d ds => exact ⟨d :: ds, rest, List.cons_ne_nil d ds, takeDigits_eq htake, h⟩

end Decimal

namespace Json

namespace Number
open Decimal
variable {cs rest : List Char} {negative : Bool} {whole : Nat} {fraction : List Digit} {n : Number}

theorem sign_of_readExponent? {e : Int} (h : readExponent? cs = some (e, rest)) :
    ∃ negative sign ds, Sign negative sign ∧ ds ≠ [] ∧
      e = (if negative then -(value ds : Int) else (value ds : Int)) ∧
      cs = sign ++ (Decimal.text ds ++ rest) := by
  unfold readExponent? at h
  split at h
  next negative digits hsign =>
  obtain ⟨ds, rest', hne, rfl, hread⟩ := exists_of_takeDigits h
  cases hread
  split at hsign
  · cases hsign
    exact ⟨true, _, ds, .minus, hne, rfl, rfl⟩
  · cases hsign
    exact ⟨false, _, ds, .plus, hne, rfl, rfl⟩
  · cases hsign
    exact ⟨false, _, ds, .none, hne, rfl, rfl⟩

theorem scale_of_readExponent? {letter : Char} (hletter : letter = 'e' ∨ letter = 'E')
    (h : (readExponent? cs).map (fun (e, rest) => (⟨negative, whole, fraction, some e⟩, rest)) =
      some (n, rest)) :
    ∃ exponent scale, Scale exponent scale ∧ n = ⟨negative, whole, fraction, exponent⟩ ∧
      letter :: cs = scale ++ rest := by
  obtain ⟨⟨e, rest'⟩, hread, heq⟩ := Option.map_eq_some_iff.1 h
  cases heq
  obtain ⟨_, sign, ds, hsign, hne, rfl, rfl⟩ := sign_of_readExponent? hread
  refine ⟨_, _, .some hletter hsign hne, rfl, ?_⟩
  rw [List.cons_append, List.append_assoc]

theorem scale_of_readScale? (h : readScale? negative whole fraction cs = some (n, rest)) :
    ∃ exponent scale, Scale exponent scale ∧ n = ⟨negative, whole, fraction, exponent⟩ ∧
      cs = scale ++ rest := by
  unfold readScale? at h
  split at h
  · exact scale_of_readExponent? (.inl rfl) h
  · exact scale_of_readExponent? (.inr rfl) h
  · cases h
    exact ⟨none, [], .none, rfl, rfl⟩

theorem scale_of_readFraction? (h : readFraction? negative whole cs = some (n, rest)) :
    ∃ fraction exponent scale, Scale exponent scale ∧ n = ⟨negative, whole, fraction, exponent⟩ ∧
      cs = fractionText fraction ++ (scale ++ rest) := by
  unfold readFraction? at h
  split at h
  · obtain ⟨ds, rest', hne, rfl, hread⟩ := exists_of_takeDigits h
    obtain ⟨exponent, scale, hscale, hn, rfl⟩ := scale_of_readScale? hread
    refine ⟨ds, exponent, scale, hscale, hn, ?_⟩
    obtain ⟨d, ds, rfl⟩ := List.exists_cons_of_ne_nil hne
    rfl
  · obtain ⟨exponent, scale, hscale, hn, rfl⟩ := scale_of_readScale? h
    exact ⟨[], exponent, scale, hscale, hn, rfl⟩

theorem whole_of_readWhole? (h : readWhole? negative cs = some (n, rest)) :
    ∃ whole fraction exponent scale, Whole whole ∧ Scale exponent scale ∧
      n = ⟨negative, value whole, fraction, exponent⟩ ∧
      cs = Decimal.text whole ++ (fractionText fraction ++ (scale ++ rest)) := by
  unfold readWhole? at h
  split at h
  · obtain ⟨fraction, exponent, scale, hscale, hn, rfl⟩ := scale_of_readFraction? h
    exact ⟨[0], fraction, exponent, scale, .zero, hscale, hn, rfl⟩
  · next hzero =>
    obtain ⟨ds, rest', hne, rfl, hread⟩ := exists_of_takeDigits h
    obtain ⟨fraction, exponent, scale, hscale, hn, rfl⟩ := scale_of_readFraction? hread
    obtain ⟨d, ds, rfl⟩ := List.exists_cons_of_ne_nil hne
    -- A run that begins with zero is read as that zero alone.
    have hd : d ≠ 0 := fun hd => hzero _ (by rw [hd]; rfl)
    exact ⟨d :: ds, fraction, exponent, scale, .run hd, hscale, hn, rfl⟩

theorem written_of_read? (h : read? cs = some (n, rest)) :
    ∃ ds, n.Written ds ∧ cs = ds ++ rest := by
  unfold read? at h
  split at h
  · obtain ⟨whole, fraction, exponent, scale, hwhole, hscale, rfl, rfl⟩ := whole_of_readWhole? h
    refine ⟨_, .mk true fraction hwhole hscale, ?_⟩
    simp only [List.append_assoc]
    rfl
  · obtain ⟨whole, fraction, exponent, scale, hwhole, hscale, rfl, rfl⟩ := whole_of_readWhole? h
    refine ⟨_, .mk false fraction hwhole hscale, ?_⟩
    simp only [List.append_assoc]
    rfl

end Number

theorem Literal.exists_cons {p : Piece} {ps : List Piece} {written cs rest : List Char}
    (hp : p.Written written) (h : ∃ ds, Literal ps ds ∧ cs = ds ++ rest) :
    ∃ ds, Literal (p :: ps) ds ∧ written ++ cs = ds ++ rest := by
  obtain ⟨ds, hds, rfl⟩ := h
  exact ⟨_, .cons hp hds, (List.append_assoc _ _ _).symm⟩

theorem literal_of_readPieces? {cs rest : List Char} {ps : List Piece}
    (h : readPieces? cs = some (ps, rest)) : ∃ ds, Literal ps ds ∧ cs = ds ++ '"' :: rest := by
  fun_induction readPieces? cs generalizing ps with
  | case1 => cases h
  | case2 =>
    cases h
    exact ⟨[], .nil, rfl⟩
  | case3 a b c d cs ih =>
    simp only [Option.bind_eq_bind, Option.bind_eq_some_iff] at h
    obtain ⟨n, hn, ⟨qs, rest'⟩, hread, heq⟩ := h
    cases heq
    exact Literal.exists_cons (.unit hn) (ih hread)
  | case4 e cs _ ih =>
    simp only [Option.bind_eq_bind, Option.bind_eq_some_iff] at h
    obtain ⟨c, hc, ⟨qs, rest'⟩, hread, heq⟩ := h
    cases heq
    exact Literal.exists_cons (.short hc) (ih hread)
  | case5 => cases h
  | case6 c cs hquote _ hslash hc ih =>
    simp only [Option.bind_eq_bind, Option.bind_eq_some_iff] at h
    obtain ⟨⟨qs, rest'⟩, hread, heq⟩ := h
    cases heq
    -- A backslash at the end of the text begins nothing.
    have hplain : c ≠ '\\' := by
      intro hc
      cases cs with
      | nil => cases hread
      | cons e cs => exact hslash e cs hc rfl
    exact Literal.exists_cons (.plain hquote hplain hc) (ih hread)

namespace Token
variable {t : Token} {ts : List Token} {cs rest : List Char}

theorem written_of_read? (h : read? cs = some (t, rest)) : ∃ ds, t.Written ds ∧ cs = ds ++ rest := by
  unfold read? at h
  split at h
  case h_10 =>
    simp only [Option.bind_eq_bind, Option.bind_eq_some_iff] at h
    obtain ⟨⟨ps, rest'⟩, hread, heq⟩ := h
    cases heq
    obtain ⟨ds, hds, rfl⟩ := literal_of_readPieces? hread
    exact ⟨_, ⟨ps, ds, hds, rfl, rfl⟩, by simp⟩
  case h_11 =>
    simp only [Option.bind_eq_bind, Option.bind_eq_some_iff] at h
    obtain ⟨⟨n, rest'⟩, hread, heq⟩ := h
    cases heq
    exact Number.written_of_read? hread
  -- All other tokens have one text.
  all_goals
    cases h
    exact ⟨_, rfl, rfl⟩

theorem spread_of_scan? {fuel : Nat} (h : scan? fuel cs = some ts) : Spread ts cs := by
  have hspace (cs : List Char) : ∀ c ∈ cs.takeWhile isSpace, isSpace c = true :=
    fun c => List.mem_takeWhile_imp
  fun_induction scan? fuel cs generalizing ts with
  | case1 fuel cs hdrop =>
    cases h
    rw [← List.takeWhile_append_dropWhile (p := isSpace) (l := cs), hdrop, List.append_nil]
    exact .nil (hspace cs)
  | case2 => cases h
  | case3 cs c r hdrop fuel ih =>
    simp only [Option.bind_eq_bind, Option.bind_eq_some_iff] at h
    obtain ⟨⟨t, rest⟩, hread, ts, hscan, heq⟩ := h
    cases heq
    obtain ⟨ds, hds, hr⟩ := written_of_read? hread
    rw [← List.takeWhile_append_dropWhile (p := isSpace) (l := cs), hdrop, hr]
    exact .cons (hspace cs) hds (ih rest hscan)

theorem intercalate_comma_concat (ls : List (List Token)) (l : List Token) :
    [comma].intercalate (ls ++ [l]) = ls.flatMap (· ++ [comma]) ++ l := by
  induction ls with
  | nil => simp
  | cons l₁ ls ih =>
    rw [List.flatMap_cons, List.append_assoc, ← ih]
    cases ls with
    | nil => simp
    | cons l₂ ls => simp

end Token

namespace Reader

inductive Opened : List Frame → List Token → Prop where
  | nil : Opened [] []
  | array {outer : List Frame} {ts : List Token} (h : Opened outer ts)
      {items : List (Json × List Token)} (hitems : ∀ i ∈ items, Spelled i.1 i.2) :
    Opened (.array (items.map Prod.fst).reverse :: outer)
      (ts ++ .openArray :: (items.map Prod.snd).flatMap (· ++ [.comma]))
  | object {outer : List Frame} {ts : List Token} (h : Opened outer ts)
      {members : List (Member × List Token)} (hmembers : ∀ m ∈ members, Spelled m.1.2 m.2)
      (k : Option String) :
    Opened (.object (members.map Prod.fst).reverse k :: outer)
      (ts ++ .openObject :: ((members.map fun m => keyed m.1.1 m.2).flatMap (· ++ [.comma]) ++
        [.string k, .colon]))

/-- The tokens that were read up to this point. -/
inductive Took : Reader → List Token → Prop where
  | value {outer : List Frame} {ts : List Token} (h : Opened outer ts) : Took (.value outer) ts
  | firstItem {outer : List Frame} {ts : List Token} (h : Opened outer ts) :
    Took (.firstItem outer) (ts ++ [.openArray])
  | firstKey {outer : List Frame} {ts : List Token} (h : Opened outer ts) :
    Took (.firstKey outer) (ts ++ [.openObject])
  | key {outer : List Frame} {ts : List Token} (h : Opened outer ts)
      {members : List (Member × List Token)} (hmembers : ∀ m ∈ members, Spelled m.1.2 m.2) :
    Took (.key (members.map Prod.fst).reverse outer)
      (ts ++ .openObject :: (members.map fun m => keyed m.1.1 m.2).flatMap (· ++ [.comma]))
  | colon {outer : List Frame} {ts : List Token} (h : Opened outer ts)
      {members : List (Member × List Token)} (hmembers : ∀ m ∈ members, Spelled m.1.2 m.2)
      (k : Option String) :
    Took (.colon (members.map Prod.fst).reverse k outer)
      (ts ++ .openObject ::
        ((members.map fun m => keyed m.1.1 m.2).flatMap (· ++ [.comma]) ++ [.string k]))
  | after {outer : List Frame} {ts us : List Token} (h : Opened outer ts) {v : Json}
      (hv : Spelled v us) : Took (.after v outer) (ts ++ us)

variable {outer : List Frame} {ts : List Token} {t : Token} {r r' : Reader}

theorem Took.beginValue (h : Opened outer ts) (hr : Reader.beginValue outer t = some r) :
    Took r (ts ++ [t]) := by
  cases t with
  | null => cases hr; exact .after h .null
  | bool b => cases hr; exact .after h (.bool b)
  | number n => cases hr; exact .after h (.number n)
  | string s => cases hr; exact .after h (.string s)
  | openArray => cases hr; exact .firstItem h
  | openObject => cases hr; exact .firstKey h
  | _ => cases hr

theorem Took.afterItem {done : List Json} {v : Json} {us : List Token}
    (h : Opened (.array done :: outer) ts) (hv : Spelled v us)
    (hr : (Reader.after v (.array done :: outer)).step t = some r') : Took r' (ts ++ us ++ [t]) := by
  cases h with
  | @array _ ts h items hitems =>
    have hall : ∀ i ∈ items ++ [(v, us)], Spelled i.1 i.2 :=
      List.forall_mem_append.2 ⟨hitems, List.forall_mem_singleton.2 hv⟩
    cases t with
    | comma =>
      cases hr
      simpa using Took.value (.array h hall)
    | closeArray =>
      cases hr
      have hspelled := Spelled.array hall
      rw [List.map_append, List.map_append, List.map_singleton, List.map_singleton,
        Token.intercalate_comma_concat] at hspelled
      simpa using Took.after h hspelled
    | _ => cases hr

theorem Took.afterMember {done : List Member} {k : Option String} {v : Json} {us : List Token}
    (h : Opened (.object done k :: outer) ts) (hv : Spelled v us)
    (hr : (Reader.after v (.object done k :: outer)).step t = some r') :
    Took r' (ts ++ us ++ [t]) := by
  cases h with
  | @object _ ts h members hmembers =>
    have hall : ∀ m ∈ members ++ [((k, v), us)], Spelled m.1.2 m.2 :=
      List.forall_mem_append.2 ⟨hmembers, List.forall_mem_singleton.2 hv⟩
    cases t with
    | comma =>
      cases hr
      simpa [keyed] using Took.key h hall
    | closeObject =>
      cases hr
      have hspelled := Spelled.object hall
      rw [List.map_append, List.map_append, List.map_singleton, List.map_singleton,
        Token.intercalate_comma_concat] at hspelled
      simpa [keyed] using Took.after h hspelled
    | _ => cases hr

theorem Took.step (h : Took r ts) (hr : r.step t = some r') : Took r' (ts ++ [t]) := by
  cases h with
  | value h => exact .beginValue h hr
  | @firstItem outer ts h =>
    -- Any token but the closing bracket begins a value.
    by_cases ht : t = .closeArray
    · subst ht
      cases hr
      rw [List.append_assoc]
      exact .after h (.array (List.forall_mem_nil _))
    · have hbegin : Reader.beginValue (.array [] :: outer) t = some r' := by
        cases t <;> first | exact hr | exact absurd rfl ht
      exact .beginValue (.array h (List.forall_mem_nil _)) hbegin
  | firstKey h =>
    rw [List.append_assoc]
    cases t with
    | closeObject =>
      cases hr
      exact .after h (.object (List.forall_mem_nil _))
    | string k =>
      cases hr
      exact .colon h (List.forall_mem_nil _) k
    | _ => cases hr
  | key h hmembers =>
    rw [List.append_assoc]
    cases t with
    | string k =>
      cases hr
      exact .colon h hmembers k
    | _ => cases hr
  | colon h hmembers k =>
    rw [List.append_assoc, List.cons_append, List.append_assoc]
    cases t with
    | colon =>
      cases hr
      exact .value (.object h hmembers k)
    | _ => cases hr
  | @after outer _ us h v hv =>
    cases outer with
    | nil => cases t <;> cases hr
    | cons frame outer =>
      cases frame with
      | array done => exact .afterItem h hv hr
      | object done k => exact .afterMember h hv hr

/-- Every step keeps account of the tokens, and so does the whole run. -/
theorem Took.run? {us : List Token} (h : Took r ts) (hr : r.run? us = some r') :
    Took r' (ts ++ us) := by
  induction us generalizing r ts with
  | nil =>
    cases hr
    rwa [List.append_nil]
  | cons t us ih =>
    obtain ⟨s, hs, hrest⟩ := Option.bind_eq_some_iff.1 hr
    rw [List.append_cons]
    exact ih (h.step hs) hrest

end Reader

theorem spelled_of_ofTokens? {ts : List Token} {v : Json} (h : ofTokens? ts = some v) :
    Spelled v ts := by
  unfold ofTokens? at h
  split at h
  · next w hrun =>
    cases h
    cases Reader.Took.run? (.value .nil) hrun with
    | after h hv =>
      cases h
      exact hv
  · cases h

/-- A text is read as a value if and only if it is one of the ways to write it. -/
theorem parse?_eq_some_iff {text : String} {v : Json} : parse? text = some v ↔ v.Written text := by
  constructor
  · intro h
    obtain ⟨ts, hscan, hts⟩ := Option.bind_eq_some_iff.1 h
    exact ⟨ts, spelled_of_ofTokens? hts, Token.spread_of_scan? hscan⟩
  · exact parse?_written

end Json

end MapAudit
