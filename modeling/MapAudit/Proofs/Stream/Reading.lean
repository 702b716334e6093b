import MapAudit.Proofs.Stream.Lines
import MapAudit.Stream.Changes
import Mathlib.Data.List.Forall2
import Mathlib.Data.List.TakeWhile

namespace MapAudit

namespace Text

end Text

namespace Stream

def textCount (ls : List Bytes) : Nat := ls.countP fun line => (text? line).isSome

theorem textCount_of_all {ls : List Bytes} (h : ∀ line ∈ ls, (text? line).isSome = true) :
    textCount ls = ls.length :=
  List.countP_eq_length.2 h

/-- The line is a text that trimming leaves nothing of. -/
def passedOver (line : Bytes) : Bool := (text? line).any (Text.trim · == "")

variable (reason : String → String)

/-- What a line of text gives: a change, a failure that names its line, or another one. -/
theorem parse_cases (t : String) :
    (∀ number, parse reason number t = .error (malformed number (reason t))) ∨
      (∃ c, ∀ number, parse reason number t = .ok c) ∨
      ∃ f, f.kind ≠ .serialization ∧ ∀ number, parse reason number t = .error f := by
  have hkind (r : Refusal) : r.toFailure.kind ≠ .serialization := by cases r <;> exact nofun
  unfold parse
  cases (Json.parse? t).bind ofJson? with
  | none => exact .inl fun _ => rfl
  | some change =>
    obtain ⟨name, entity⟩ := change
    dsimp only
    cases Action.parse name with
    | ok action => exact .inr (.inl ⟨_, fun _ => rfl⟩)
    | error r =>
      exact .inr (.inr ⟨{ r.toFailure with operation := "read_changes" }.withEntity entity.key,
        hkind r, fun _ => rfl⟩)

/-- The lines that stand for an item, each with its place among all lines, from zero on. -/
def places (ls : List Bytes) : List (Bytes × Nat) := ls.zipIdx.filter fun p => !passedOver p.1

/-- The item is the one of the line at its place: a failure of input for bytes that are no text, and else
what the text says, under its number among the lines of text up to there. -/
structure Answers (ls : List Bytes) (place : Bytes × Nat) (item : Item) : Prop where
  line : ls[place.2]? = some place.1
  ofBytes : text? place.1 = none → item = .error notText
  ofText : ∀ t, text? place.1 = some t → item = parse reason (textCount (ls.take (place.2 + 1))) t

/-- Among lines of text the number of a line is its place, counted from one. -/
theorem Answers.number {ls : List Bytes} {place : Bytes × Nat} {item : Item} {f : Failure}
    (h : Answers reason ls place item) (htext : ∀ line ∈ ls, (text? line).isSome = true)
    (hitem : item = .error f) (hf : f.kind = .serialization) :
    ∃ t, text? place.1 = some t ∧ f = malformed (place.2 + 1) (reason t) := by
  obtain ⟨hlt, -⟩ := List.getElem?_eq_some_iff.1 h.line
  obtain ⟨t, ht⟩ := Option.isSome_iff_exists.1 (htext _ (List.mem_of_getElem? h.line))
  have hcount : textCount (ls.take (place.2 + 1)) = place.2 + 1 := by
    rw [textCount_of_all fun line hline => htext line (List.mem_of_mem_take hline),
      List.length_take_of_le hlt]
  have hparse := h.ofText t ht
  rw [hcount, hitem] at hparse
  refine ⟨t, ht, ?_⟩
  rcases parse_cases reason t with hcase | ⟨c, hcase⟩ | ⟨g, hg, hcase⟩
  · rw [hcase] at hparse
    exact Except.error.inj hparse
  · rw [hcase] at hparse
    cases hparse
  · rw [hcase] at hparse
    exact absurd (Except.error.inj hparse ▸ hf) hg

end Stream

end MapAudit
