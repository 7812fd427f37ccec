/-
  First in, first out, as a property of traces.

  A queue is watched through the labels of its steps: what goes in, what comes out, and the steps
  that do neither.  `Step` is the queue itself, a list; an implementation is any step relation with
  the same labels.

  * `Run.conservation` : what went in is what came out, in order, followed by what is left;
  * `Bounded`          : how many elements are in the queue at most, read off the labels alone;
  * `Run.simulate`     : an implementation whose steps keep its state in relation to a list behaves
    as the queue, as long as the bound holds.
-/
import Mathlib.Data.List.Infix

namespace MyOs.Lib.Fifo

/-- What one step does to the queue. -/
inductive Label (α : Type*) where
  | push (a : α)
  | pop (a : α)
  | silent

section Labels

variable {α : Type*}

/-- What went in. -/
def pushed : List (Label α) → List α
  | [] => []
  | .push a :: ls => a :: pushed ls
  | .pop _ :: ls => pushed ls
  | .silent :: ls => pushed ls

/-- What came out. -/
def popped : List (Label α) → List α
  | [] => []
  | .push _ :: ls => popped ls
  | .pop a :: ls => a :: popped ls
  | .silent :: ls => popped ls

theorem pushed_append : ∀ ls ls' : List (Label α), pushed (ls ++ ls') = pushed ls ++ pushed ls'
  | [], _ => rfl
  | .push a :: ls, ls' => congrArg (a :: ·) (pushed_append ls ls')
  | .pop _ :: ls, ls' => pushed_append ls ls'
  | .silent :: ls, ls' => pushed_append ls ls'

theorem popped_append : ∀ ls ls' : List (Label α), popped (ls ++ ls') = popped ls ++ popped ls'
  | [], _ => rfl
  | .push _ :: ls, ls' => popped_append ls ls'
  | .pop a :: ls, ls' => congrArg (a :: ·) (popped_append ls ls')
  | .silent :: ls, ls' => popped_append ls ls'

/-- From `n` elements on there are never more than `bound`. -/
def Bounded (bound n : Nat) (ls : List (Label α)) : Prop :=
  ∀ pre, pre <+: ls → n + (pushed pre).length ≤ (popped pre).length + bound

theorem Bounded.le {bound n : Nat} {ls : List (Label α)} (h : Bounded bound n ls) : n ≤ bound := by
  have hnil := h [] (List.nil_prefix)
  simpa [pushed, popped] using hnil

theorem Bounded.nil {bound n : Nat} (h : n ≤ bound) : Bounded bound n ([] : List (Label α)) := by
  intro pre hpre
  rw [List.prefix_nil.mp hpre]
  simpa [pushed, popped] using h

/-- What holds of every beginning of `x :: l`. -/
theorem forall_beginning_cons {β : Type*} {P : List β → Prop} {x : β} {l : List β} :
    (∀ pre, pre <+: x :: l → P pre) ↔ P [] ∧ ∀ pre, pre <+: l → P (x :: pre) := by
  constructor
  · intro h
    exact ⟨h [] List.nil_prefix, fun pre hpre => h _ (List.cons_prefix_cons.mpr ⟨rfl, hpre⟩)⟩
  · rintro ⟨hnil, hcons⟩ pre hpre
    rcases List.prefix_cons_iff.mp hpre with rfl | ⟨pre', rfl, hpre'⟩
    · exact hnil
    · exact hcons pre' hpre'

theorem bounded_push {bound n : Nat} {a : α} {ls : List (Label α)} :
    Bounded bound n (.push a :: ls) ↔ n ≤ bound ∧ Bounded bound (n + 1) ls := by
  rw [Bounded, forall_beginning_cons]
  refine and_congr (by simp [pushed, popped]) (forall₂_congr fun pre _ => ?_)
  simp only [pushed, popped, List.length_cons]
  omega

theorem bounded_pop {bound n : Nat} {a : α} {ls : List (Label α)} :
    Bounded bound (n + 1) (.pop a :: ls) ↔ n + 1 ≤ bound ∧ Bounded bound n ls := by
  rw [Bounded, forall_beginning_cons]
  refine and_congr (by simp [pushed, popped]) (forall₂_congr fun pre _ => ?_)
  simp only [pushed, popped, List.length_cons]
  omega

/-- Few elements in all are few at any time. -/
theorem bounded_of_total {bound : Nat} {ls : List (Label α)} (h : (pushed ls).length ≤ bound) :
    Bounded bound 0 ls := by
  rintro pre ⟨post, rfl⟩
  rw [pushed_append, List.length_append] at h
  omega

theorem Bounded.of_silent {bound n : Nat} {ls : List (Label α)}
    (h : Bounded bound n (.silent :: ls)) : Bounded bound n ls :=
  fun pre hpre => h (.silent :: pre) (List.cons_prefix_cons.mpr ⟨rfl, hpre⟩)

end Labels

/-! ## Runs -/

section Runs

variable {α σ : Type*}

/-- A run of a step relation, with its labels, oldest first. -/
inductive Run (step : σ → Label α → σ → Prop) : σ → List (Label α) → σ → Prop where
  | nil (s : σ) : Run step s [] s
  | cons {s s' s'' : σ} {l : Label α} {ls : List (Label α)} (h : step s l s')
      (t : Run step s' ls s'') : Run step s (l :: ls) s''

theorem Run.append {step : σ → Label α → σ → Prop} {s s' s'' : σ} {ls ls' : List (Label α)}
    (h : Run step s ls s') (h' : Run step s' ls' s'') : Run step s (ls ++ ls') s'' := by
  induction h with
  | nil => exact h'
  | cons hstep _ ih => exact .cons hstep (ih h')

/-- Fewer restrictions allow more runs. -/
theorem Run.mono {step step' : σ → Label α → σ → Prop} {s s' : σ} {ls : List (Label α)}
    (hle : ∀ s l s', step s l s' → step' s l s') (h : Run step s ls s') : Run step' s ls s' := by
  induction h with
  | nil s => exact .nil s
  | cons hstep _ ih => exact .cons (hle _ _ _ hstep) ih

/-- A counter of what went in stays below a bound on the whole run. -/
theorem Run.guard_total {step : σ → Label α → σ → Prop} (count : σ → Nat) (bound : Nat)
    (hpush : ∀ s a s', step s (.push a) s' → count s' = count s + 1)
    (hpop : ∀ s a s', step s (.pop a) s' → count s' = count s)
    (hsilent : ∀ s s', step s .silent s' → count s' = count s)
    {s s' : σ} {ls : List (Label α)} (hrun : Run step s ls s') :
    count s + (pushed ls).length ≤ bound →
      Run (fun s l s' => step s l s' ∧ ∀ a, l = .push a → count s < bound) s ls s' := by
  induction hrun with
  | nil s => intro _; exact .nil s
  | @cons s mid s'' l ls h _ ih =>
    intro htotal
    cases l with
    | push a =>
      rw [pushed, List.length_cons] at htotal
      exact .cons ⟨h, fun _ _ => by omega⟩ (ih (by rw [hpush s a mid h]; omega))
    | pop a => exact .cons ⟨h, fun _ hl => (nomatch hl)⟩ (ih (by rwa [hpop s a mid h]))
    | silent => exact .cons ⟨h, fun _ hl => (nomatch hl)⟩ (ih (by rwa [hsilent s mid h]))

/-- The queue: in at the back, out at the front. -/
inductive Step : List α → Label α → List α → Prop where
  | push (q : List α) (a : α) : Step q (.push a) (q ++ [a])
  | pop (q : List α) (a : α) : Step (a :: q) (.pop a) q
  | silent (q : List α) : Step q .silent q

/-- **Conservation**: nothing is lost, duplicated or reordered. -/
theorem Run.conservation {q q' : List α} {ls : List (Label α)} (h : Run Step q ls q') :
    q ++ pushed ls = popped ls ++ q' := by
  induction h with
  | nil q => rw [pushed, popped, List.append_nil, List.nil_append]
  | cons hstep _ ih =>
    cases hstep with
    | push q a => rw [pushed, popped, ← ih, List.append_assoc, List.singleton_append]
    | pop q a => rw [pushed, popped, List.cons_append, ih, List.cons_append]
    | silent q => exact ih

/-- **Simulation**: when every step of an implementation that respects the bound keeps `Holds`
    with a step of the queue, every run does. -/
theorem Run.simulate {step : σ → Label α → σ → Prop} {Holds : σ → List α → Prop} {bound : Nat}
    (hstep : ∀ s l s' q, step s l s' → Holds s q → (∀ a, l = .push a → q.length < bound) →
      ∃ q', Step q l q' ∧ Holds s' q')
    {s s' : σ} {ls : List (Label α)} (hrun : Run step s ls s') :
    ∀ q, Holds s q → Bounded bound q.length ls → ∃ q', Run Step q ls q' ∧ Holds s' q' := by
  induction hrun with
  | nil s => intro q hq _; exact ⟨q, .nil q, hq⟩
  | @cons s s' s'' l ls h _ ih =>
    intro q hq hbound
    have hroom : ∀ a, l = .push a → q.length < bound := by
      rintro a rfl
      exact (bounded_push.mp hbound).2.le
    obtain ⟨q', hq', hholds⟩ := hstep s l s' q h hq hroom
    have hbound' : Bounded bound q'.length ls := by
      cases hq' with
      | push q a =>
        rw [List.length_append, List.length_singleton]
        exact (bounded_push.mp hbound).2
      | pop q a => exact (bounded_pop.mp hbound).2
      | silent q => exact hbound.of_silent
    obtain ⟨q'', hrest, hholds'⟩ := ih q' hholds hbound'
    exact ⟨q'', .cons hq' hrest, hholds'⟩

end Runs

end MyOs.Lib.Fifo
