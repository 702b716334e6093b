import MapAudit.Proofs.Entity.Encoding
import MapAudit.Proofs.Json.Printer
import MapAudit.Proofs.Stream.Lines
import MapAudit.Stream.Changes
import Mathlib.Data.List.Forall2

namespace MapAudit
open Codec Json.Fields

namespace Action

/-- The name of the action with each letter in either case. -/
def Spelled (a : Action) (name : String) : Prop :=
  List.Forall₂ (fun c d => c = d ∨ c = d.toUpper) name.toList a.tag.toList

instance (a : Action) (name : String) : Decidable (a.Spelled name) :=
  inferInstanceAs (Decidable (List.Forall₂ (fun c d : Char => c = d ∨ c = d.toUpper)
    name.toList a.tag.toList))

/-- What holds of the letters of the name in either case holds of the letters of a spelling. -/
theorem Spelled.imp {a : Action} {name : String} (h : a.Spelled name) (P : Char → Char → Prop)
    [∀ c d, Decidable (P c d)]
    (hP : (a.tag.toList.all fun d => P d d ∧ P d.toUpper d) = true) :
    List.Forall₂ P name.toList a.tag.toList := by
  unfold Spelled at h
  generalize name.toList = cs, a.tag.toList = ds at h hP
  induction h with
  | nil => exact .nil
  | cons hc _ ih =>
    rw [List.all_cons, Bool.and_eq_true, decide_eq_true_eq] at hP
    obtain ⟨⟨hlow, hup⟩, hP⟩ := hP
    refine .cons ?_ (ih hP)
    rcases hc with rfl | rfl
    · exact hlow
    · exact hup

theorem ofName?_of_spelled {a : Action} {name : String} (h : a.Spelled name) :
    ofName? name = some a := by
  have hletters := h.imp (fun c d => c.toLower = d) (by cases a <;> decide)
  have hlower : name.toList.map Char.toLower = a.tag.toList :=
    List.forall₂_eq_eq_eq ▸ List.forall₂_map_left_iff.2 hletters
  have hname : name.toLower = a.tag := by
    rw [← String.toList_inj, ← hlower]
    exact String.toList_map
  unfold ofName?
  rw [hname]
  cases a <;> rfl

/-- No letter of a name needs an escape. -/
theorem quoted_of_spelled {a : Action} {name : String} (h : a.Spelled name) :
    Json.Token.quoted name = '"' :: (name.toList ++ ['"']) := by
  have hletters := h.imp (fun c _ => Json.Token.escape c = [c]) (by cases a <;> decide)
  have hplain : name.toList.flatMap Json.Token.escape = name.toList := by
    generalize name.toList = cs, a.tag.toList = ds at hletters ⊢
    induction hletters with
    | nil => rfl
    | cons hc _ ih =>
      rw [List.flatMap_cons, hc, ih]
      rfl
  unfold Json.Token.quoted
  rw [hplain]

end Action

namespace Stream

def changeText (name : String) (entity : Snapshot) : String :=
  "\x7b\"action\":\"" ++ name ++ "\",\"entity\":" ++ encode entity ++ "\x7d"

/-- The text holds these changes in this order: each on a line of its own, under a spelling of its
action, with any lines of blanks in between. The last line may go without an end. -/
inductive Written : List (Action × Snapshot) → String → Prop
  | blank {changes : List (Action × Snapshot)} {rest : String} (s e : String)
    (hs : Text.isBlankText s = true) (hline : '\n' ∉ s.toList) (he : EndsLine e)
    (hrest : Written changes rest) : Written changes (s ++ e ++ rest)
  | change {changes : List (Action × Snapshot)} {rest : String} (action : Action)
    (entity : Snapshot) (name e : String) (hname : action.Spelled name)
    (he : EndsLine e) (hrest : Written changes rest) :
    Written ((action, entity) :: changes) (changeText name entity ++ e ++ rest)
  | openBlank (s : String) (hs : Text.isBlankText s = true) (hline : '\n' ∉ s.toList) :
    Written [] s
  | openChange (action : Action) (entity : Snapshot) (name : String)
    (hname : action.Spelled name) : Written [(action, entity)] (changeText name entity)

section changeText
variable {action : Action} {name : String} {entity : Snapshot}

def fields (name : String) (entity : Snapshot) : Json.Fields :=
  ⟨false, [("action", .string name), ("entity", Codec.toJson entity)]⟩

/-- The object of two members as text. -/
theorem compact_fields (name : String) (entity : Snapshot) :
    (Json.object (fields name entity).given).compact.toList =
      '\x7b' :: (Json.Token.quoted "action" ++ ':' :: (Json.Token.quoted name ++
        ',' :: (Json.Token.quoted "entity" ++ ':' :: ((encode entity).toList ++ ['\x7d'])))) := by
  have htokens : (Json.object (fields name entity).given).tokens =
      .openObject :: .string "action" :: .colon :: .string name :: .comma :: .string "entity" ::
        .colon :: ((Codec.toJson entity).tokens ++ [.closeObject]) := by
    simp only [fields, Json.tokens, Json.memberTokens, Json.moreMemberTokens, List.append_nil,
      List.cons_append, List.nil_append]
  have hend : (encode entity).toList ++ ['\x7d'] =
      ((Codec.toJson entity).tokens ++ [Json.Token.closeObject]).flatMap Json.Token.text := by
    unfold Codec.encode Json.compact
    rw [List.flatMap_append, String.toList_ofList]
    rfl
  rw [hend]
  unfold Json.compact
  rw [htokens, String.toList_ofList]
  rfl

theorem changeText_eq (h : action.Spelled name) (entity : Snapshot) :
    changeText name entity = (Json.object (fields name entity).given).compact := by
  have hstart : "\x7b\"action\":\"".toList =
      '\x7b' :: (Json.Token.quoted "action" ++ [':', '"']) := rfl
  have hmiddle : "\",\"entity\":".toList =
      '"' :: ',' :: (Json.Token.quoted "entity" ++ [':']) := rfl
  have hend : "\x7d".toList = ['\x7d'] := rfl
  rw [← String.toList_inj, compact_fields, Action.quoted_of_spelled h]
  unfold changeText
  simp only [String.toList_append, hstart, hmiddle, hend, List.append_assoc, List.cons_append,
    List.nil_append]

theorem ofJson?_object (h : ∀ p ∈ entity.positions, p.Printable) (name : String) :
    ofJson? (.object (fields name entity).given) = some (name, entity) := by
  have haction : (fields name entity).required? "action" Json.toText? = some name :=
    required?_of_lookup rfl rfl
  have hentity : (fields name entity).required? "entity" (Codec.ofJson? 1) = some entity :=
    required?_of_lookup rfl (Snapshot.faithful h 1)
  unfold ofJson?
  refine (Json.bind_fields?_object (fields name entity) ["action", "entity"] _
    rfl rfl (by decide)).trans ?_
  simp only [Option.bind_eq_bind, haction, hentity, Option.bind_some, Option.pure_def]

theorem parse_changeText (h : action.Spelled name) (hentity : ∀ p ∈ entity.positions, p.Printable)
    (reason : String → String) (number : Nat) :
    parse reason number (changeText name entity) = .ok (action, entity) := by
  -- The line is the printed object, which is read back, and then the name of the action.
  have hjson : (Json.parse? (changeText name entity)).bind ofJson? = some (name, entity) := by
    rw [changeText_eq h, Json.parse?_compact, Option.bind_some, ofJson?_object hentity]
  have haction : Action.parse name = .ok action := by
    unfold Action.parse
    rw [Action.ofName?_of_spelled h]
    rfl
  unfold parse
  rw [hjson]
  dsimp only
  rw [haction]

theorem lineFeed_not_mem_changeText (h : action.Spelled name) (entity : Snapshot) :
    '\n' ∉ (changeText name entity).toList := by
  rw [changeText_eq h]
  intro hmem
  exact absurd (Json.visible_compact _ '\n' hmem) (by decide)

theorem getLast?_changeText (name : String) (entity : Snapshot) :
    (changeText name entity).toList.getLast? = some '\x7d' := by
  unfold changeText
  rw [String.toList_append]
  exact List.getLast?_concat

theorem isBlankText_changeText (name : String) (entity : Snapshot) :
    Text.isBlankText (changeText name entity) = false := by
  unfold changeText Text.isBlankText
  simp only [String.toList_append, List.append_assoc]
  rfl

theorem isEmpty_ofText_changeText (name : String) (entity : Snapshot) :
    (ofText (changeText name entity)).isEmpty = false := by
  have hend : ofText "\x7d" = [125] := by rw [ofText_eq]; rfl
  unfold changeText
  rw [ofText_append, hend, List.isEmpty_eq_false_iff]
  exact List.append_ne_nil_of_right_ne_nil _ (List.cons_ne_nil _ _)

end changeText

/-- A line of blanks is one whatever its end is, and also if it ends in a carriage return itself. -/
theorem exists_blank_text {s e : String} (hs : Text.isBlankText s = true) (he : EndsLine e) :
    ∃ t, text? (ofText (s ++ e)) = some t ∧ Text.isBlankText t = true := by
  rcases he with rfl | rfl
  · by_cases hreturn : s.toList.getLast? = some '\r'
    · -- This carriage return is taken for a part of the end, and blanks before it are left.
      obtain ⟨cs, hcs⟩ := List.getLast?_eq_some_iff.1 hreturn
      have hs' : s = String.ofList cs ++ "\r" := by
        rw [← String.toList_inj, String.toList_append, String.toList_ofList]
        exact hcs
      refine ⟨String.ofList cs, ?_, ?_⟩
      · rw [hs', String.append_assoc]
        exact text?_append_crlf _
      · unfold Text.isBlankText at hs ⊢
        rw [hcs, List.all_append, Bool.and_eq_true] at hs
        rw [String.toList_ofList]
        exact hs.1
    · exact ⟨s, text?_append_lineFeed hreturn, hs⟩
  · exact ⟨s, text?_append_crlf s, hs⟩

theorem text?_changeText_append (name : String) (entity : Snapshot) {e : String} (he : EndsLine e) :
    text? (ofText (changeText name entity ++ e)) = some (changeText name entity) := by
  rcases he with rfl | rfl
  · apply text?_append_lineFeed
    rw [getLast?_changeText]
    decide
  · exact text?_append_crlf _

namespace Progress
variable (reason : String → String)

theorem step_of_blank (p : Progress) {line : Bytes} {s : String} (htext : text? line = some s)
    (hs : Text.isBlankText s = true) : p.step reason line = { p with number := p.number + 1 } := by
  unfold step
  rw [htext]
  exact if_pos hs

theorem step_of_change (p : Progress) {line : Bytes} {action : Action} {name : String}
    {entity : Snapshot} (hname : action.Spelled name)
    (hentity : ∀ q ∈ entity.positions, q.Printable)
    (htext : text? line = some (changeText name entity)) :
    p.step reason line = ⟨p.number + 1, .ok (action, entity) :: p.items⟩ := by
  unfold step
  rw [htext]
  dsimp only
  rw [isBlankText_changeText, parse_changeText hname hentity]
  rfl

/-- The changes of a written text come on top of what came before. The induction is on how the text
was written, the first line first, as the lines are gone through. -/
theorem items_foldl_step {changes : List (Action × Snapshot)} {text : String}
    (h : Written changes text) (hchanges : ∀ c ∈ changes, ∀ q ∈ c.2.positions, q.Printable)
    (p : Progress) :
    ((lines (ofText text)).foldl (step reason) p).items =
      (changes.map fun c => (.ok c : Item)).reverse ++ p.items := by
  induction h generalizing p with
  | blank s e hs hline he _ ih =>
    obtain ⟨t, htext, ht⟩ := exists_blank_text hs he
    rw [lines_ofText_append hline he, List.foldl_cons, step_of_blank reason p htext ht, ih hchanges]
  | change action entity name e hname he _ ih =>
    obtain ⟨hentity, hchanges⟩ := List.forall_mem_cons.1 hchanges
    have htext := text?_changeText_append name entity he
    rw [lines_ofText_append (lineFeed_not_mem_changeText hname entity) he, List.foldl_cons,
      step_of_change reason p hname hentity htext, ih hchanges, List.map_cons, List.reverse_cons,
      List.append_assoc]
    rfl
  | openBlank s hs hline =>
    rw [lines_of_not_mem (lineFeed_not_mem_ofText hline)]
    split
    · rfl
    · rw [List.foldl_cons, step_of_blank reason p (text?_ofText hline) hs]
      rfl
  | openChange action entity name hname =>
    have hline := lineFeed_not_mem_changeText hname entity
    have hentity := hchanges _ List.mem_cons_self
    rw [lines_of_not_mem (lineFeed_not_mem_ofText hline), isEmpty_ofText_changeText,
      if_neg Bool.false_ne_true, List.foldl_cons,
      step_of_change reason p hname hentity (text?_ofText hline)]
    rfl

end Progress

/-- A written stream gives its changes in their order, no failure, and nothing else. The times of the
changes are those that can be read from a text: a leap second stands at the end of a minute. -/
theorem items_of_written {changes : List (Action × Snapshot)} {text : String}
    (h : Written changes text) (hchanges : ∀ c ∈ changes, ∀ p ∈ c.2.positions, p.Printable)
    (reason : String → String) : items (ofText text) reason = changes.map .ok := by
  unfold items
  rw [Progress.items_foldl_step reason h hchanges, List.append_nil, List.reverse_reverse]

/-- Two changes with texts that need escapes: blanks before and between them, ends of both kinds,
and no end after the last. -/
theorem items_of_written_quoting :
    items (ofText ("\u2028\r" ++ "\n" ++ (changeText "Create" .quoting ++ "\r\n" ++
        ("" ++ "\n" ++ changeText "DELETE" Snapshot.quoting.tombstone)))) =
      [.ok (.create, .quoting), .ok (.delete, Snapshot.quoting.tombstone)] := by
  have hcreate : Action.create.Spelled "Create" := by decide
  have hdelete : Action.delete.Spelled "DELETE" := by decide
  have hwritten := Written.blank "\u2028\r" "\n" rfl (by decide) (.inl rfl)
    (.change .create .quoting "Create" "\r\n" hcreate (.inr rfl)
      (.blank "" "\n" rfl (by decide) (.inl rfl)
        (.openChange .delete Snapshot.quoting.tombstone "DELETE" hdelete)))
  refine items_of_written hwritten ?_ unexplained
  rw [List.forall_mem_cons, List.forall_mem_cons]
  exact ⟨Snapshot.printable_quoting, fun p hp => (nomatch hp), List.forall_mem_nil _⟩

end Stream

end MapAudit
