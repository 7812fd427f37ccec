/-
  Machines that read one symbol and answer one.

  The law of such a machine often speaks about events that are several symbols long, and about what
  came before them.  `answers` is a law of that kind: what each event is answered, given the events
  before it.

  * `run_append`  : a run in two parts;
  * `run_answers` : when every event, from every state that stands for a history, gets the visible
    answers of the law and leads to a state for the longer history, every list of events does.
-/
import Mathlib.Data.List.Basic

namespace MyOs.Lib.Mealy

variable {σ α β ε : Type*}

/-- Feed symbols: the answers, and the last state. -/
def run (step : σ → α → β × σ) : σ → List α → List β × σ
  | s, [] => ([], s)
  | s, a :: as => ((step s a).1 :: (run step (step s a).2 as).1, (run step (step s a).2 as).2)

theorem run_append (step : σ → α → β × σ) : ∀ (s : σ) (as as' : List α),
    run step s (as ++ as') = ((run step s as).1 ++ (run step (run step s as).2 as').1,
      (run step (run step s as).2 as').2)
  | _, [], _ => rfl
  | s, a :: as, as' => by
    rw [List.cons_append, run, run_append step (step s a).2 as as']
    rfl

/-- What a law answers to events, after the events `before`. -/
def answers (law : List ε → ε → List β) : List ε → List ε → List β
  | _, [] => []
  | before, e :: es => law before e ++ answers law (before ++ [e]) es

section Refinement

variable {step : σ → α → β × σ} {encode : ε → List α} {visible : β → Bool}
  {law : List ε → ε → List β} {valid : ε → Prop} {stands : σ → List ε → Prop}

/-- **A machine that obeys the law event by event obeys it on every list of events.** -/
theorem run_answers
    (hevent : ∀ s before e, valid e → stands s before →
      (run step s (encode e)).1.filter visible = law before e ∧
        stands (run step s (encode e)).2 (before ++ [e])) :
    ∀ (es before : List ε) (s : σ), (∀ e ∈ es, valid e) → stands s before →
      (run step s (es.flatMap encode)).1.filter visible = answers law before es ∧
        stands (run step s (es.flatMap encode)).2 (before ++ es) := by
  intro es
  induction es with
  | nil =>
    intro before s _ hs
    rw [List.append_nil]
    exact ⟨rfl, hs⟩
  | cons e es ih =>
    intro before s hvalid hs
    obtain ⟨hanswer, hs'⟩ := hevent s before e (hvalid e List.mem_cons_self) hs
    obtain ⟨hanswers, hs''⟩ := ih (before ++ [e]) _
      (fun e' he' => hvalid e' (List.mem_cons_of_mem e he')) hs'
    rw [List.flatMap_cons, run_append, List.filter_append, hanswer, hanswers]
    rw [List.append_assoc, List.singleton_append] at hs''
    exact ⟨rfl, hs''⟩

end Refinement

end MyOs.Lib.Mealy
