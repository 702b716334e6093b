import MapAudit.Proofs.Run.Effect

namespace MapAudit.Run

variable {σ τ α α' β β' : Type} {R : RunState σ → RunState τ → Prop}
  {F G : Failure → Failure → Prop} {V : α → α' → Prop} {W : β → β' → Prop}

inductive Ends (R : RunState σ → RunState τ → Prop) (F : Failure → Failure → Prop)
    (V : α → α' → Prop) : EStateM.Result Failure (RunState σ) α →
      EStateM.Result Failure (RunState τ) α' → Prop where
  | ok {a : α} {b : α'} {s : RunState σ} {t : RunState τ} (value : V a b) (state : R s t) :
      Ends R F V (.ok a s) (.ok b t)
  | error {f g : Failure} {s : RunState σ} {t : RunState τ} (failure : F f g) (state : R s t) :
      Ends R F V (.error f s) (.error g t)

theorem Ends.of_ok {a : α} {s : RunState σ} {r : EStateM.Result Failure (RunState τ) α'}
    (h : Ends R F V (.ok a s) r) : ∃ b t, r = .ok b t ∧ V a b ∧ R s t := by
  cases h with
  | ok hv hs => exact ⟨_, _, rfl, hv, hs⟩

theorem Ends.of_error {f : Failure} {s : RunState σ} {r : EStateM.Result Failure (RunState τ) α'}
    (h : Ends R F V (.error f s) r) : ∃ g t, r = .error g t ∧ F f g ∧ R s t := by
  cases h with
  | error hf hs => exact ⟨_, _, rfl, hf, hs⟩

def Abreast (R : RunState σ → RunState τ → Prop) (F : Failure → Failure → Prop)
    (V : α → α' → Prop) (x : Run σ α) (y : Run τ α') : Prop :=
  ∀ s t, R s t → Ends R F V (x s) (y t)

theorem abreast_refl (x : Run σ α) : Abreast Eq Eq Eq x x := by
  rintro s _ rfl
  cases h : x s with
  | ok a s' => exact .ok rfl rfl
  | error f s' => exact .error rfl rfl

theorem abreast_pure {a : α} {b : α'} (h : V a b) : Abreast R F V (pure a) (pure b) :=
  fun _ _ hs => .ok h hs

theorem abreast_throw {f g : Failure} (h : F f g) : Abreast R F V (throw f) (throw g) :=
  fun _ _ hs => .error h hs

theorem abreast_get : Abreast R F R get get :=
  fun _ _ hs => .ok hs hs

namespace Abreast

theorem bind {x : Run σ α} {y : Run τ α'} {f : α → Run σ β} {g : α' → Run τ β'}
    (h : Abreast R F V x y) (hf : ∀ a b, V a b → Abreast R F W (f a) (g b)) :
    Abreast R F W (x >>= f) (y >>= g) := by
  intro s t hs
  have hends := h s t hs
  rw [bind_apply, bind_apply]
  generalize x s = r, y t = r' at hends
  cases hends with
  | ok hv hs' => exact hf _ _ hv _ _ hs'
  | error hf hs' => exact .error hf hs'

theorem mapFailure {x : Run σ α} {y : Run τ α'} {f g : Failure → Failure}
    (h : Abreast R F V x y) (hfg : ∀ a b, F a b → G (f a) (g b)) :
    Abreast R G V (mapFailure f x) (mapFailure g y) := by
  intro s t hs
  have hends := h s t hs
  unfold Run.mapFailure
  generalize x s = r, y t = r' at hends
  cases hends with
  | ok hv hs' => exact .ok hv hs'
  | error hf hs' => exact .error (hfg _ _ hf) hs'

end Abreast

section changes
variable [Store σ] [Store τ] {plan plan' : Plan}
  (hprocess : ∀ action next, Abreast (σ := σ) (τ := τ) R F Eq (process plan action next)
    (process plan' action next))
include hprocess

/-- Runs that go abreast at every change go abreast over all of them. -/
theorem abreast_outcomes (changes : List (Action × Snapshot)) :
    Abreast R F Eq (outcomes plan changes) (outcomes plan' changes) := by
  induction changes with
  | nil => exact abreast_pure rfl
  | cons c changes ih =>
    refine (hprocess c.1 c.2).bind ?_
    rintro outcome _ rfl
    refine ih.bind ?_
    rintro os _ rfl
    exact abreast_pure rfl

theorem abreast_all (hfinal : Abreast (σ := σ) (τ := τ) R F Eq (finalize plan) (finalize plan'))
    (changes : List (Action × Snapshot)) :
    Abreast R F Eq (all plan changes) (all plan' changes) := by
  rw [all_eq, all_eq]
  exact (abreast_outcomes hprocess changes).bind fun _ _ _ => hfinal

end changes

end MapAudit.Run
