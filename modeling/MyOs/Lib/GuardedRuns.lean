/-
  Runs whose actions all meet a condition.

  A program is a step function that may fail, a run the fold of it over a list of actions.  The
  condition is on an action and the state it finds; it need not hold in runs that fail.

  * `Guarded.run`     : an invariant kept by every action that meets the condition, which then does
    not fail, is kept by every run of such actions;
  * `Guarded.and_mem` : what holds of the actions themselves can be added to the condition;
  * `guarded_append`  : a run in two parts, so that what holds at the end of every run holds after
    each of its actions;
  * `guarded_iff`     : two programs in step, whose conditions agree on related states, meet them in
    the same runs;
  * `Guarded.simulate`: a program whose steps follow those of another one as long as the condition is
    met has all its runs that do not fail.
-/
import Mathlib.Data.List.Basic

namespace MyOs.Lib.GuardedRuns

variable {σ α : Type*} {step : σ → α → Option σ} {ok : σ → α → Prop}

/-- Every action of the run meets the condition `ok` in the state it finds. -/
def Guarded (step : σ → α → Option σ) (ok : σ → α → Prop) : σ → List α → Prop
  | _, [] => True
  | s, a :: as => ok s a ∧ ∀ s', step s a = some s' → Guarded step ok s' as

/-- A step function that never fails. -/
theorem guarded_total {f : σ → α → σ} {s : σ} {a : α} {as : List α} :
    Guarded (fun s a => some (f s a)) ok s (a :: as) ↔
      ok s a ∧ Guarded (fun s a => some (f s a)) ok (f s a) as :=
  ⟨fun h => ⟨h.1, h.2 _ rfl⟩, fun h => ⟨h.1, fun _ hs' => Option.some.inj hs' ▸ h.2⟩⟩

/-- **The rule of invariants.** -/
theorem Guarded.run (inv : σ → Prop)
    (hstep : ∀ s a, inv s → ok s a → ∃ s', step s a = some s' ∧ inv s') :
    ∀ {as : List α} {s : σ}, Guarded step ok s as → inv s →
      ∃ s', as.foldlM step s = some s' ∧ inv s' := by
  intro as
  induction as with
  | nil =>
    intro s _ hinv
    exact ⟨s, rfl, hinv⟩
  | cons a as ih =>
    intro s hguarded hinv
    obtain ⟨s', hs', hinv'⟩ := hstep s a hinv hguarded.1
    obtain ⟨s'', hs'', hinv''⟩ := ih (hguarded.2 s' hs') hinv'
    refine ⟨s'', ?_, hinv''⟩
    rw [List.foldlM_cons, hs']
    exact hs''

/-- A condition on the actions alone, added to the guard. -/
theorem Guarded.and_mem {P : α → Prop} : ∀ {as : List α} {s : σ}, Guarded step ok s as →
    (∀ a ∈ as, P a) → Guarded step (fun s a => ok s a ∧ P a) s as
  | [], _, _, _ => trivial
  | a :: _, _, h, hP => ⟨⟨h.1, hP a List.mem_cons_self⟩, fun s' hs' =>
      (h.2 s' hs').and_mem fun a ha => hP a (List.mem_cons_of_mem _ ha)⟩

theorem guarded_append : ∀ {as as' : List α} {s : σ}, Guarded step ok s (as ++ as') ↔
    Guarded step ok s as ∧ ∀ s', as.foldlM step s = some s' → Guarded step ok s' as'
  | [], as', s => by
    refine ⟨fun h => ⟨trivial, fun s' hs' => ?_⟩, fun h => h.2 s rfl⟩
    rw [List.foldlM_nil] at hs'
    obtain rfl := Option.some.inj hs'
    exact h
  | a :: as, as', s => by
    constructor
    · rintro ⟨hok, hrest⟩
      refine ⟨⟨hok, fun s' hs' => (guarded_append.mp (hrest s' hs')).1⟩, fun s'' hrun => ?_⟩
      rw [List.foldlM_cons] at hrun
      obtain ⟨s', hs', hrun'⟩ := Option.bind_eq_some_iff.mp hrun
      exact (guarded_append.mp (hrest s' hs')).2 s'' hrun'
    · rintro ⟨⟨hok, has⟩, has'⟩
      refine ⟨hok, fun s' hs' => guarded_append.mpr ⟨has s' hs', fun s'' hrun => has' s'' ?_⟩⟩
      rw [List.foldlM_cons, hs']
      exact hrun

/-- **Two programs in step.** -/
theorem guarded_iff {τ : Type*} {step' : τ → α → Option τ} {ok' : τ → α → Prop} (R : σ → τ → Prop)
    (hok : ∀ s t a, R s t → (ok s a ↔ ok' t a))
    (hstep : ∀ s t a, R s t → ok s a →
      ∃ s' t', step s a = some s' ∧ step' t a = some t' ∧ R s' t') :
    ∀ {as : List α} {s : σ} {t : τ}, R s t → (Guarded step ok s as ↔ Guarded step' ok' t as) := by
  intro as
  induction as with
  | nil => exact fun _ => Iff.rfl
  | cons a as ih =>
    intro s t h
    constructor
    · rintro ⟨hs, hrest⟩
      obtain ⟨s', t', hs', ht', h'⟩ := hstep s t a h hs
      refine ⟨(hok s t a h).mp hs, fun u hu => ?_⟩
      obtain rfl := Option.some.inj (ht'.symm.trans hu)
      exact (ih h').mp (hrest s' hs')
    · rintro ⟨ht, hrest⟩
      have hs := (hok s t a h).mpr ht
      obtain ⟨s', t', hs', ht', h'⟩ := hstep s t a h hs
      refine ⟨hs, fun u hu => ?_⟩
      obtain rfl := Option.some.inj (hs'.symm.trans hu)
      exact (ih h').mpr (hrest t' ht')

/-- **Simulation.** -/
theorem Guarded.simulate {τ : Type*} {step' : τ → α → Option τ} (R : σ → τ → Prop)
    (hstep : ∀ s t a t', R s t → ok s a → step' t a = some t' →
      ∃ s', step s a = some s' ∧ R s' t') :
    ∀ {as : List α} {s : σ} {t t' : τ}, Guarded step ok s as → R s t →
      as.foldlM step' t = some t' → ∃ s', as.foldlM step s = some s' ∧ R s' t' := by
  intro as
  induction as with
  | nil =>
    intro s t t' _ h hrun
    obtain rfl := Option.some.inj hrun
    exact ⟨s, rfl, h⟩
  | cons a as ih =>
    intro s t t' hguarded h hrun
    rw [List.foldlM_cons] at hrun
    obtain ⟨t₁, ht₁, hrest⟩ := Option.bind_eq_some_iff.mp hrun
    obtain ⟨s₁, hs₁, h₁⟩ := hstep s t a t₁ h hguarded.1 ht₁
    obtain ⟨s', hs', h'⟩ := ih (hguarded.2 s₁ hs₁) h₁ hrest
    refine ⟨s', ?_, h'⟩
    rw [List.foldlM_cons, hs₁]
    exact hs'

end MyOs.Lib.GuardedRuns
