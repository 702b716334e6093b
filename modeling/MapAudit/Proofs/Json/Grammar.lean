import MapAudit.Json.Reader
import MapAudit.Proofs.Json.Token

namespace MapAudit.Json

namespace Token
variable {t : Token} {l l' : List Token}

/-- Nothing has to be kept apart from a token that is no number. -/
theorem isChain_cons (ht : t.isNumber = false) (h : l.IsChain Apart) :
    (t :: l).IsChain Apart := by
  cases l with
  | nil => exact .singleton t
  | cons u us =>
    refine List.isChain_cons_cons.2 ⟨fun hn => ?_, h⟩
    rw [ht] at hn
    cases hn

theorem isChain_append (hl : l.IsChain Apart) (hl' : l'.IsChain Apart)
    (h : ∀ u ∈ l'.head?, u.isNumber = false) : (l ++ l').IsChain Apart :=
  List.isChain_append.2 ⟨hl, hl', fun _ _ u hu _ => h u hu⟩

theorem isChain_concat (hl : l.IsChain Apart) (ht : t.isNumber = false) :
    (l ++ [t]).IsChain Apart :=
  isChain_append hl (.singleton t) fun u hu => by cases hu; exact ht

theorem intercalate_comma (l : List Token) (ls : List (List Token)) :
    [comma].intercalate (l :: ls) = l ++ ls.flatMap (comma :: ·) := by
  induction ls generalizing l with
  | nil => simp
  | cons l' ls ih => rw [List.intercalate_cons_cons, ih, List.flatMap_cons, List.append_assoc]; rfl

theorem head?_flatMap_comma (ls : List (List Token)) :
    ∀ u ∈ (ls.flatMap (comma :: ·)).head?, u.isNumber = false := by
  intro u hu
  cases ls with
  | nil => cases hu
  | cons l ls => cases hu; rfl

theorem isChain_flatMap_comma {ls : List (List Token)} (h : ∀ l ∈ ls, l.IsChain Apart) :
    (ls.flatMap (comma :: ·)).IsChain Apart := by
  induction ls with
  | nil => exact .nil
  | cons l ls ih =>
    obtain ⟨hl, hls⟩ := List.forall_mem_cons.1 h
    exact isChain_append (isChain_cons rfl hl) (ih hls) (head?_flatMap_comma ls)

theorem isChain_intercalate {ls : List (List Token)} (h : ∀ l ∈ ls, l.IsChain Apart) :
    ([comma].intercalate ls).IsChain Apart := by
  cases ls with
  | nil => exact .nil
  | cons l ls =>
    obtain ⟨hl, hls⟩ := List.forall_mem_cons.1 h
    rw [intercalate_comma]
    exact isChain_append hl (isChain_flatMap_comma hls) (head?_flatMap_comma ls)

end Token

def keyed (k : Option String) (ts : List Token) : List Token := .string k :: .colon :: ts

inductive Spelled : Json → List Token → Prop where
  | null : Spelled .null [.null]
  | bool (b : Bool) : Spelled (.bool b) [.bool b]
  | number (n : Number) : Spelled (.number n) [.number n]
  | string (s : Option String) : Spelled (Reader.ofText s) [.string s]
  | array {items : List (Json × List Token)} (h : ∀ i ∈ items, Spelled i.1 i.2) :
    Spelled (.array (items.map Prod.fst))
      (.openArray :: ([.comma].intercalate (items.map Prod.snd) ++ [.closeArray]))
  | object {members : List (Member × List Token)} (h : ∀ m ∈ members, Spelled m.1.2 m.2) :
    Spelled (Reader.ofMembers (members.map Prod.fst))
      (.openObject :: ([.comma].intercalate (members.map fun m => keyed m.1.1 m.2) ++
        [.closeObject]))

def Written (v : Json) (text : String) : Prop := ∃ ts, Spelled v ts ∧ Token.Spread ts text.toList

/-- The text is one of the ways to write an object of these members, in this order. The key of a member
is `none` if its escapes spell no text. -/
def WrittenObject (members : List Member) (text : String) : Prop :=
  ∃ parts : List (Member × List Token), parts.map Prod.fst = members ∧
    (∀ p ∈ parts, Spelled p.1.2 p.2) ∧
    Token.Spread
      (.openObject :: ([.comma].intercalate (parts.map fun p => keyed p.1.1 p.2) ++ [.closeObject]))
      text.toList

def named (members : List Member) : List (String × Json) :=
  members.filterMap fun (k, v) => k.map (·, v)

section named
variable {members : List Member}

theorem named_map_some (members : List (String × Json)) :
    named (members.map fun m => (some m.1, m.2)) = members := by
  induction members with
  | nil => rfl
  | cons m members ih => exact congrArg (m :: ·) ih

theorem map_named (h : members.all (·.1.isSome) = true) :
    (named members).map (fun m => (some m.1, m.2)) = members := by
  induction members with
  | nil => rfl
  | cons m members ih =>
    obtain ⟨k, v⟩ := m
    rw [List.all_cons, Bool.and_eq_true] at h
    cases k with
    | none => cases h.1
    | some k => exact congrArg ((some k, v) :: ·) (ih h.2)

/-- One key that spells no text, and the members are no object. -/
theorem ofMembers_eq (members : List Member) :
    Reader.ofMembers members =
      if members.all (·.1.isSome) then .object (named members) else .unpaired := by
  have hmap : (members.mapM fun (k, v) => k.map (·, v)) =
      if members.all (·.1.isSome) then some (named members) else none := by
    induction members with
    | nil => rfl
    | cons m members ih =>
      obtain ⟨k, v⟩ := m
      rw [List.mapM_cons, ih]
      cases k with
      | none => rfl
      | some k => cases hall : members.all (·.1.isSome) <;> simp [named, hall]
  unfold Reader.ofMembers
  rw [hmap]
  cases members.all (·.1.isSome) <;> rfl

end named

theorem writtenObject_of_written {members : List (String × Json)} {text : String}
    (h : (object members).Written text) :
    WrittenObject (members.map fun m => (some m.1, m.2)) text := by
  obtain ⟨ts, hts, hspread⟩ := h
  -- An object is spelled by the one rule for objects, since that rule alone gives objects.
  generalize hv : object members = v at hts
  cases hts with
  | null | bool | number | array => cases hv
  | string s => cases s <;> cases hv
  | @object parts hparts =>
    refine ⟨parts, ?_, hparts, hspread⟩
    rw [ofMembers_eq] at hv
    split at hv
    · next hall =>
      cases hv
      exact (map_named hall).symm
    · cases hv

/-- No number directly follows a number in the tokens of a value. -/
theorem Spelled.isChain {v : Json} {ts : List Token} (h : Spelled v ts) :
    ts.IsChain Token.Apart := by
  induction h with
  | null | bool | number | string => exact .singleton _
  | array _ ih =>
    refine Token.isChain_cons rfl (Token.isChain_concat (Token.isChain_intercalate ?_) rfl)
    exact List.forall_mem_map.2 ih
  | object _ ih =>
    refine Token.isChain_cons rfl (Token.isChain_concat (Token.isChain_intercalate ?_) rfl)
    exact List.forall_mem_map.2 fun m hm =>
      Token.isChain_cons rfl (Token.isChain_cons rfl (ih m hm))

namespace Reader

/-- Wherever a value may come, the tokens are read as the value. -/
def Takes (v : Json) (ts : List Token) : Prop :=
  ∀ outer us, (value outer).run? (ts ++ us) = (after v outer).run? us

/-- The first item of an array is read like any other. -/
theorem run?_firstItem {v : Json} {ts : List Token} (h : Spelled v ts) (outer : List Frame)
    (us : List Token) :
    (firstItem outer).run? (ts ++ us) = (value (.array [] :: outer)).run? (ts ++ us) := by
  cases h <;> rfl

theorem run?_items {items : List (Json × List Token)} (h : ∀ i ∈ items, Takes i.1 i.2)
    (done : List Json) (v : Json) (outer : List Frame) (us : List Token) :
    (after v (.array done :: outer)).run?
        ((items.map Prod.snd).flatMap (.comma :: ·) ++ .closeArray :: us) =
      (after (.array (done.reverse ++ v :: items.map Prod.fst)) outer).run? us := by
  induction items generalizing done v with
  | nil =>
    change (after (.array (v :: done).reverse) outer).run? us = _
    rw [List.reverse_cons]
    rfl
  | cons i items ih =>
    obtain ⟨hi, hitems⟩ := List.forall_mem_cons.1 h
    rw [List.map_cons, List.flatMap_cons, List.append_assoc]
    refine (hi (.array (v :: done) :: outer) _).trans ((ih hitems (v :: done) i.1).trans ?_)
    rw [List.reverse_cons, List.append_assoc]
    rfl

theorem run?_members {members : List (Member × List Token)} (h : ∀ m ∈ members, Takes m.1.2 m.2)
    (done : List Member) (k : Option String) (v : Json) (outer : List Frame) (us : List Token) :
    (after v (.object done k :: outer)).run?
        ((members.map fun m => keyed m.1.1 m.2).flatMap (.comma :: ·) ++ .closeObject :: us) =
      (after (ofMembers (done.reverse ++ (k, v) :: members.map Prod.fst)) outer).run? us := by
  induction members generalizing done k v with
  | nil =>
    change (after (ofMembers ((k, v) :: done).reverse) outer).run? us = _
    rw [List.reverse_cons]
    rfl
  | cons m members ih =>
    obtain ⟨hm, hmembers⟩ := List.forall_mem_cons.1 h
    rw [List.map_cons, List.flatMap_cons, List.append_assoc]
    refine (hm (.object ((k, v) :: done) m.1.1 :: outer) _).trans
      ((ih hmembers ((k, v) :: done) m.1.1 m.1.2).trans ?_)
    rw [List.reverse_cons, List.append_assoc]
    rfl

/-- The tokens that spell a value are read as the value. -/
theorem takes_of_spelled {v : Json} {ts : List Token} (h : Spelled v ts) : Takes v ts := by
  induction h with
  | null | bool | number | string => exact fun outer us => rfl
  | @array items h ih =>
    intro outer us
    cases items with
    | nil => rfl
    | cons i items =>
      obtain ⟨hi, hitems⟩ := List.forall_mem_cons.1 ih
      rw [List.map_cons, Token.intercalate_comma]
      change (firstItem outer).run? (i.2 ++ _ ++ [.closeArray] ++ us) = _
      rw [List.append_assoc, List.append_assoc, run?_firstItem (h i List.mem_cons_self)]
      exact (hi _ _).trans (run?_items hitems [] i.1 outer us)
  | @object members h ih =>
    intro outer us
    cases members with
    | nil => rfl
    | cons m members =>
      obtain ⟨hm, hmembers⟩ := List.forall_mem_cons.1 ih
      rw [List.map_cons, Token.intercalate_comma]
      change (value (.object [] m.1.1 :: outer)).run? (m.2 ++ _ ++ [.closeObject] ++ us) = _
      rw [List.append_assoc, List.append_assoc]
      exact (hm _ _).trans (run?_members hmembers [] m.1.1 m.1.2 outer us)

end Reader

/-- However a value is written it is read. -/
theorem parse?_written {v : Json} {text : String} (h : v.Written text) : parse? text = some v := by
  obtain ⟨ts, hts, hspread⟩ := h
  have hread := Reader.takes_of_spelled hts [] []
  rw [List.append_nil] at hread
  unfold parse?
  rw [hspread.ofText? hts.isChain, Option.bind_some]
  unfold ofTokens?
  rw [hread]
  rfl

theorem parse?_writtenObject {members : List Member} {text : String}
    (h : WrittenObject members text) : parse? text = some (Reader.ofMembers members) := by
  obtain ⟨parts, rfl, hparts, hspread⟩ := h
  exact parse?_written ⟨_, .object hparts, hspread⟩

end MapAudit.Json
