/-
  A program that sets something up before others may use it.

  The program is a list of steps.  Between two of them others act, as long as the state admits them:
  not before the last step of a first part, behind which the state is safe for them.

  * `run_safe`     : then they never act in a state that is not safe;
  * `run_finished` : what the steps of the second part achieve is there when the program is done, if
    the others leave it alone.
-/
import Mathlib.Data.List.Basic

namespace MyOs.Lib.Startup

variable {σ α β : Type*}

/-- The program takes its next step, or somebody else acts. -/
inductive Event (β : Type*) where
  | next
  | act (b : β)

/-- A state and the steps that are still to be taken. -/
def event (step : σ → α → σ) (act : σ → β → σ) (enabled : σ → Bool) (c : σ × List α) :
    Event β → σ × List α
  | .next => match c.2 with
    | [] => c
    | a :: as => (step c.1 a, as)
  | .act b => if enabled c.1 then (act c.1 b, c.2) else c

theorem event_act (step : σ → α → σ) (act : σ → β → σ) (enabled : σ → Bool) (c : σ × List α) (b : β) :
    event step act enabled c (.act b) = if enabled c.1 then (act c.1 b, c.2) else c := rfl

def run (step : σ → α → σ) (act : σ → β → σ) (enabled : σ → Bool) (c : σ × List α)
    (es : List (Event β)) : σ × List α := es.foldl (event step act enabled) c

variable {step : σ → α → σ} {act : σ → β → σ} {enabled : σ → Bool} {s : σ} {first second : List α}
  {Safe : σ → Prop}

/-- Where the program is: nobody else has acted in the first part, and behind it the state is safe. -/
def Progress (step : σ → α → σ) (Safe : σ → Prop) (s : σ) (first second : List α)
    (c : σ × List α) : Prop :=
  (∃ done rest, done ++ rest = first ∧ rest ≠ [] ∧ c = (done.foldl step s, rest ++ second)) ∨
    Safe c.1 ∧ c.2 <:+ second

theorem Progress.event
    (hclosed : ∀ done rest, done ++ rest = first → rest ≠ [] → enabled (done.foldl step s) = false)
    (hopen : Safe (first.foldl step s)) (hstep : ∀ s, ∀ a ∈ second, Safe s → Safe (step s a))
    (hact : ∀ s b, Safe s → Safe (act s b)) {c : σ × List α}
    (h : Progress step Safe s first second c) (e : Event β) :
    Progress step Safe s first second (event step act enabled c e) := by
  rcases h with ⟨done, rest, hfirst, hrest, rfl⟩ | ⟨hsafe, hsuffix⟩
  · cases e with
    | next =>
      obtain ⟨a, rest, rfl⟩ := List.exists_cons_of_ne_nil hrest
      show Progress step Safe s first second (step (done.foldl step s) a, rest ++ second)
      have hconcat : step (done.foldl step s) a = (done ++ [a]).foldl step s := by
        rw [List.foldl_append]
        rfl
      rw [hconcat]
      have hdone : done ++ [a] ++ rest = first := by rw [List.append_assoc]; exact hfirst
      rcases eq_or_ne rest [] with rfl | hne
      · -- the last step of the first part
        rw [List.append_nil] at hdone
        rw [hdone]
        exact .inr ⟨hopen, List.suffix_refl second⟩
      · exact .inl ⟨done ++ [a], rest, hdone, hne, rfl⟩
    | act b =>
      refine .inl ⟨done, rest, hfirst, hrest, ?_⟩
      rw [event_act, hclosed done rest hfirst hrest]
      rfl
  · right
    obtain ⟨s', todo⟩ := c
    cases e with
    | next =>
      cases todo with
      | nil => exact ⟨hsafe, hsuffix⟩
      | cons a todo =>
        exact ⟨hstep s' a (hsuffix.subset List.mem_cons_self) hsafe,
          (List.suffix_cons a todo).trans hsuffix⟩
    | act b =>
      rw [event_act]
      split
      · exact ⟨hact s' b hsafe, hsuffix⟩
      · exact ⟨hsafe, hsuffix⟩

/-- **Nobody acts in a state that is not safe.** -/
theorem run_safe
    (hclosed : ∀ done rest, done ++ rest = first → rest ≠ [] → enabled (done.foldl step s) = false)
    (hopen : Safe (first.foldl step s)) (hstep : ∀ s, ∀ a ∈ second, Safe s → Safe (step s a))
    (hact : ∀ s b, Safe s → Safe (act s b)) (hfirst : first ≠ []) (es : List (Event β)) :
    (enabled (run step act enabled (s, first ++ second) es).1 = true ∨
        (run step act enabled (s, first ++ second) es).2 = []) →
      Safe (run step act enabled (s, first ++ second) es).1 := by
  have hstart : Progress step Safe s first second (s, first ++ second) :=
    .inl ⟨[], first, rfl, hfirst, rfl⟩
  have hrun : ∀ c, Progress step Safe s first second c →
      Progress step Safe s first second (run step act enabled c es) := by
    induction es with
    | nil => exact fun _ hc => hc
    | cons e es ih => exact fun c hc => ih _ (hc.event hclosed hopen hstep hact e)
  intro henabled
  rcases hrun _ hstart with ⟨done, rest, hdone, hrest, heq⟩ | ⟨hsafe, -⟩
  · rw [heq] at henabled
    rcases henabled with henabled | hnil
    · rw [hclosed done rest hdone hrest] at henabled
      cases henabled
    · exact absurd (List.append_eq_nil_iff.mp hnil).1 hrest
  · exact hsafe

/-- **What the second part achieves**, of the part of the state that the others leave alone. -/
theorem run_finished {τ : Type*} {view : σ → τ} {stepView : τ → α → τ}
    (hview : ∀ s a, view (step s a) = stepView (view s) a) (hact : ∀ s b, view (act s b) = view s)
    (es : List (Event β)) (c : σ × List α) :
    (run step act enabled c es).2.foldl stepView (view (run step act enabled c es).1)
      = c.2.foldl stepView (view c.1) := by
  induction es generalizing c with
  | nil => rfl
  | cons e es ih =>
    refine (ih (Startup.event step act enabled c e)).trans ?_
    obtain ⟨s', todo⟩ := c
    cases e with
    | next =>
      cases todo with
      | nil => rfl
      | cons a todo =>
        show todo.foldl stepView (view (step s' a)) = todo.foldl stepView (stepView (view s') a)
        rw [hview]
    | act b =>
      rw [event_act]
      split
      · exact congrArg (fun t => List.foldl stepView t todo) (hact s' b)
      · rfl

end MyOs.Lib.Startup
