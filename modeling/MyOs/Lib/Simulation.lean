/-
  Simulation between systems whose steps have labels.

  * `Run.invariant` : what every step keeps, every run keeps;
  * `Run.simulate`  : a system that is seen through a view takes the steps of another one, whose labels
    it sees, or steps that the view does not show.  Then the view of a run is a run.
-/
import Mathlib.Data.List.Basic

namespace MyOs.Lib.Simulation

variable {σ τ α β : Type*} {step : σ → α → σ → Prop} {s s' : σ} {as : List α}

/-- A run, with the labels of its steps. -/
inductive Run (step : σ → α → σ → Prop) : σ → List α → σ → Prop where
  | nil {s : σ} : Run step s [] s
  | cons {s s₁ s' : σ} {a : α} {as : List α} (h : step s a s₁) (t : Run step s₁ as s') :
      Run step s (a :: as) s'

/-- **The rule of invariants.** -/
theorem Run.invariant {Inv : σ → Prop} (hstep : ∀ s a s', Inv s → step s a s' → Inv s')
    (h : Run step s as s') (hs : Inv s) : Inv s' := by
  induction h with
  | nil => exact hs
  | cons h _ ih => exact ih (hstep _ _ _ hs h)

/-- **The view of a run.** -/
theorem Run.simulate {Inv : σ → Prop} {view : σ → τ} {label : α → Option β}
    {step' : τ → β → τ → Prop} (hinv : ∀ s a s', Inv s → step s a s' → Inv s')
    (hsilent : ∀ s a s', Inv s → step s a s' → label a = none → view s' = view s)
    (hvisible : ∀ s a s' b, Inv s → step s a s' → label a = some b → step' (view s) b (view s'))
    (h : Run step s as s') (hs : Inv s) : Run step' (view s) (as.filterMap label) (view s') := by
  induction h with
  | nil => exact .nil
  | @cons s s₁ s' a as h _ ih =>
    have hrest := ih (hinv _ _ _ hs h)
    cases hlabel : label a with
    | none =>
      rw [List.filterMap_cons_none hlabel, ← hsilent _ _ _ hs h hlabel]
      exact hrest
    | some b =>
      rw [List.filterMap_cons_some hlabel]
      exact .cons (hvisible _ _ _ _ hs h hlabel) hrest

end MyOs.Lib.Simulation
