import MapAudit.Json.Printer
import MapAudit.Proofs.Json.Grammar

namespace MapAudit.Json

theorem moreItemTokens_eq (vs : List Json) :
    moreItemTokens vs = (vs.map tokens).flatMap (.comma :: ·) := by
  induction vs with
  | nil => rfl
  | cons v vs ih => rw [moreItemTokens, ih, List.map_cons, List.flatMap_cons, List.cons_append]

theorem itemTokens_eq (vs : List Json) :
    itemTokens vs = [Token.comma].intercalate (vs.map tokens) := by
  cases vs with
  | nil => rfl
  | cons v vs => rw [itemTokens, moreItemTokens_eq, List.map_cons, Token.intercalate_comma]

theorem moreMemberTokens_eq (ms : List (String × Json)) :
    moreMemberTokens ms =
      (ms.map fun m => keyed (some m.1) m.2.tokens).flatMap (.comma :: ·) := by
  induction ms with
  | nil => rfl
  | cons m ms ih => rw [moreMemberTokens, ih, List.map_cons, List.flatMap_cons]; rfl

theorem memberTokens_eq (ms : List (String × Json)) :
    memberTokens ms =
      [Token.comma].intercalate (ms.map fun m => keyed (some m.1) m.2.tokens) := by
  cases ms with
  | nil => rfl
  | cons m ms => rw [memberTokens, moreMemberTokens_eq, List.map_cons, Token.intercalate_comma]; rfl

/-- What is read back one by one is read back as a whole. -/
theorem mapM_map_eq_some {α β : Type} {read : β → Option α} {write : α → β} {as : List α}
    (h : ∀ a ∈ as, read (write a) = some a) : (as.map write).mapM read = some as := by
  induction as with
  | nil => rfl
  | cons a as ih =>
    obtain ⟨ha, has⟩ := List.forall_mem_cons.1 h
    rw [List.map_cons, List.mapM_cons, ha, ih has]
    rfl

theorem ofMembers_keys (ms : List (String × Json)) :
    Reader.ofMembers (ms.map fun m => (some m.1, m.2)) = .object ms := by
  have hkeys : (ms.map fun m => ((some m.1, m.2) : Member)).mapM (fun (k, v) => k.map (·, v)) =
      some ms := mapM_map_eq_some fun _ _ => rfl
  unfold Reader.ofMembers
  rw [hkeys]

theorem spelled_array {vs : List Json} (h : ∀ v ∈ vs, v.Spelled v.tokens) :
    (array vs).Spelled (array vs).tokens := by
  have hitems : (vs.map fun v => (v, v.tokens)).map Prod.fst = vs := by
    rw [List.map_map]
    exact List.map_id vs
  have hspelled := Spelled.array
    (List.forall_mem_map.2 h : ∀ i ∈ vs.map fun v => (v, v.tokens), i.1.Spelled i.2)
  rw [hitems, List.map_map] at hspelled
  rw [tokens, itemTokens_eq]
  exact hspelled

theorem spelled_object {ms : List (String × Json)} (h : ∀ m ∈ ms, m.2.Spelled m.2.tokens) :
    (object ms).Spelled (object ms).tokens := by
  have hspelled := Spelled.object (List.forall_mem_map.2 h :
    ∀ m ∈ ms.map fun m => (((some m.1, m.2) : Member), m.2.tokens), m.1.2.Spelled m.2)
  rw [List.map_map, List.map_map] at hspelled
  rw [tokens, memberTokens_eq, ← ofMembers_keys]
  exact hspelled

mutual

/-- The tokens of a value spell it. -/
theorem spelled_tokens : ∀ v : Json, v.Spelled v.tokens
  | .null => .null
  | .bool b => .bool b
  | .number n => .number n
  | .string s => .string (some s)
  | .unpaired => .string none
  | .array vs => spelled_array (spelled_items vs)
  | .object ms => spelled_object (spelled_members ms)

theorem spelled_items : ∀ vs : List Json, ∀ v ∈ vs, v.Spelled v.tokens
  | v :: vs => List.forall_mem_cons.2 ⟨spelled_tokens v, spelled_items vs⟩
  | [] => fun _ hv => nomatch hv

theorem spelled_members : ∀ ms : List (String × Json), ∀ m ∈ ms, m.2.Spelled m.2.tokens
  | (_, v) :: ms => List.forall_mem_cons.2 ⟨spelled_tokens v, spelled_members ms⟩
  | [] => fun _ hm => nomatch hm

end

/-- The value with the same text before each of its tokens. -/
def spaced (space : List Char) (v : Json) : String :=
  String.ofList (v.tokens.flatMap fun t => space ++ t.text)

theorem written_spaced {space : List Char} (hspace : ∀ c ∈ space, isSpace c = true) (v : Json) :
    v.Written (v.spaced space) := by
  refine ⟨v.tokens, spelled_tokens v, ?_⟩
  unfold spaced
  rw [String.toList_ofList]
  exact Token.spread_text hspace v.tokens

theorem written_compact (v : Json) : v.Written v.compact := by
  have hspace : ∀ c ∈ ([] : List Char), isSpace c = true := List.forall_mem_nil _
  exact written_spaced hspace v

/-- A value is read back from its text. -/
theorem parse?_compact (v : Json) : parse? v.compact = some v := parse?_written (written_compact v)

end MapAudit.Json
