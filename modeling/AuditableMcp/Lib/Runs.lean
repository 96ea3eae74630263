import Mathlib.Logic.Relation
/-!
# Runs of a machine

A machine is a partial step function: `step s a` is the state after the act `a`, where the act can happen in `s`. A run
is about some acts only, those that `q` allows in the state they happen in.
-/
universe u v

namespace Runs

variable {σ : Type u} {α : Type v} (step : σ → α → Option σ) (q : σ → α → Bool)

/-- One act, of those a run is about. -/
def StepIf (s s' : σ) : Prop := ∃ a, q s a = true ∧ step s a = some s'

def Run (start s : σ) : Prop := Relation.ReflTransGen (StepIf step q) start s

/-- The acts in turn, where they are such. -/
def acts (s : σ) : List α → Option σ
  | [] => some s
  | a :: as => if q s a then (step s a).bind fun s => acts s as else none

variable {step q}

theorem run_of_acts {as : List α} {start s : σ} (h : acts step q start as = some s) : Run step q start s := by
  induction as generalizing start with
  | nil =>
    obtain rfl := Option.some.inj h
    exact .refl
  | cons a as ih =>
    obtain ⟨ha, h⟩ := Option.ite_none_right_eq_some.1 h
    obtain ⟨mid, hmid, h⟩ := Option.bind_eq_some_iff.1 h
    exact .head ⟨a, ha, hmid⟩ (ih h)

/-- What the start has and each act keeps, every state of a run has. -/
theorem Run.kept {p : σ → Prop} {start s : σ} (h : Run step q start s) (hstart : p start)
    (hstep : ∀ s a s', p s → q s a = true → step s a = some s' → p s') : p s := by
  induction h with
  | refl => exact hstart
  | tail _ hact ih =>
    obtain ⟨a, ha, hact⟩ := hact
    exact hstep _ a _ ih ha hact

end Runs
