import MapAudit.Json.Printer

namespace MapAudit.Json
open Decimal

def Visible (cs : List Char) : Prop := ∀ c ∈ cs, ' '.toNat ≤ c.toNat

namespace Visible

instance (cs : List Char) : Decidable (Visible cs) := List.decidableBAll _ cs

theorem append {cs ds : List Char} (h : Visible cs) (h' : Visible ds) : Visible (cs ++ ds) :=
  List.forall_mem_append.2 ⟨h, h'⟩

theorem cons {c : Char} {cs : List Char} (hc : ' '.toNat ≤ c.toNat) (h : Visible cs) :
    Visible (c :: cs) :=
  List.forall_mem_cons.2 ⟨hc, h⟩

theorem digits (ds : List Digit) : Visible (Decimal.text ds) := by
  have hdigit : ∀ d : Digit, ' '.toNat ≤ d.toChar.toNat := by decide
  intro c hc
  obtain ⟨d, -, rfl⟩ := List.mem_map.1 hc
  exact hdigit d

theorem number (n : Number) : Visible n.text := by
  have hexponent (e : Int) : Visible (Number.exponentText e) := by
    refine cons ?_ (digits _)
    split <;> decide
  unfold Number.text
  refine append (append (append ?_ (digits _)) ?_) ?_
  · split <;> decide
  · split
    · decide
    · exact cons (by decide) (digits _)
  · split
    · decide
    · exact cons (by decide) (hexponent _)

/-- A control character is escaped. -/
theorem escape (c : Char) : Visible (Token.escape c) := by
  have hhex : ∀ n < 16, ' '.toNat ≤ (Token.hexChar n).toNat := by decide
  unfold Token.escape
  iterate 7
    split
    · decide
  split
  · next hcontrol =>
    have hsmall : c.toNat < 32 := hcontrol
    have hhigh := hhex (c.toNat / 16) (by omega)
    have hlow := hhex (c.toNat % 16) (by omega)
    have hstart : Visible ['\\', 'u', '0', '0'] := by decide
    exact hstart.append (cons hhigh (cons hlow (by decide)))
  · next hplain => exact cons (Nat.le_of_not_lt hplain) (by decide)

theorem flatMap {α : Type} {f : α → List Char} (h : ∀ a, Visible (f a)) (as : List α) :
    Visible (as.flatMap f) := by
  intro c hc
  obtain ⟨a, -, hmem⟩ := List.mem_flatMap.1 hc
  exact h a c hmem

theorem token (t : Token) : Visible t.text := by
  cases t with
  | bool b => cases b <;> decide
  | number n => exact number n
  | string s =>
    cases s with
    | none => decide
    | some s => exact cons (by decide) (append (flatMap escape s.toList) (by decide))
  | _ => decide

end Visible

theorem visible_compact (v : Json) : Visible v.compact.toList := by
  unfold compact
  rw [String.toList_ofList]
  exact .flatMap .token _

end MapAudit.Json
