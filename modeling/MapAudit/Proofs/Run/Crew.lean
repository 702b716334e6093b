import Mathlib.Logic.Function.Basic
import MapAudit.Proofs.Run.Session

namespace MapAudit

def Session.over (x : Session σ) (store : τ) : Session τ := ⟨x.plan, x.state.over store⟩

structure Crew (ι σ : Type) where
  store : σ
  /-- The plan and the books of each processor. -/
  desk : ι → Session Unit

namespace Crew
variable {ι σ : Type}

def ofStore (plans : ι → Plan) (store : σ) : Crew ι σ := ⟨store, fun i => .ofStore (plans i) ()⟩

def session (x : Crew ι σ) (i : ι) : Session σ := (x.desk i).over x.store

theorem store_session (x : Crew ι σ) (i : ι) : (x.session i).state.store = x.store := rfl

theorem session_ofStore (plans : ι → Plan) (store : σ) (i : ι) :
    (ofStore plans store).session i = .ofStore (plans i) store := rfl

variable [DecidableEq ι] [Store σ]

/-- The answer of one processor to a call, and the crew afterwards. -/
def ask (x : Crew ι σ) (call : ι × Session.Call) : Session.Answer × Crew ι σ :=
  let (answer, y) := (x.session call.1).ask call.2
  (answer, ⟨y.state.store, Function.update x.desk call.1 (y.over ())⟩)

def after (x : Crew ι σ) (calls : List (ι × Session.Call)) : Crew ι σ :=
  calls.foldl (fun x call => (x.ask call).2) x

variable (x : Crew ι σ) (call : ι × Session.Call)

theorem store_ask : (x.ask call).2.store = ((x.session call.1).ask call.2).2.state.store := rfl

/-- The processor that was called goes on as it would alone. -/
theorem session_ask_self :
    (x.ask call).2.session call.1 = ((x.session call.1).ask call.2).2 := by
  change (Function.update x.desk call.1 _ call.1).over _ = _
  rw [Function.update_self]
  rfl

/-- The others find another store, and nothing else changes for them. -/
theorem session_ask_of_ne {i : ι} (h : i ≠ call.1) :
    (x.ask call).2.session i = (x.session i).over (x.ask call).2.store := by
  change (Function.update x.desk call.1 _ i).over _ = _
  rw [Function.update_of_ne h]
  rfl

theorem after_cons (calls : List (ι × Session.Call)) :
    x.after (call :: calls) = (x.ask call).2.after calls := rfl

theorem after_append (calls calls' : List (ι × Session.Call)) :
    x.after (calls ++ calls') = (x.after calls).after calls' :=
  List.foldl_append

theorem after_concat (calls : List (ι × Session.Call)) :
    x.after (calls ++ [call]) = ((x.after calls).ask call).2 :=
  x.after_append calls [call]

end Crew

end MapAudit
