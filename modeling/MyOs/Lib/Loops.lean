/-
  Counting loops.

  `for (i = s; i < s + n; i++) { if (...) return ...; }` is `findSome?` over the list of its
  counter values.  It returns at the FIRST counter value whose body returns; the lemmas below say
  so in terms of the counter, without mentioning the list.

  `for (i = 0; i < n; i++) { ... }` whose body may fail is `foldlM` over the counter values.  When
  the state before each iteration is known, so is the state behind the loop.
-/
import Mathlib.Data.List.Range

namespace MyOs.Lib.Loops

variable {β : Type*} {f : Nat → Option β} {s n : Nat}

/-- The loop returns `b` when some iteration does and no earlier one returns. -/
theorem findSome_range'_eq_some {b : β} (h : (List.range' s n).findSome? f = some b) :
    ∃ a, s ≤ a ∧ a < s + n ∧ f a = some b ∧ ∀ x, s ≤ x → x < a → f x = none := by
  induction n generalizing s with
  | zero => nomatch h
  | succ n ih =>
    rw [List.range'_succ, List.findSome?_cons] at h
    cases hs : f s with
    | some c =>
      rw [hs] at h
      exact ⟨s, Nat.le_refl s, by omega, hs.trans h, fun x h1 h2 => by omega⟩
    | none =>
      rw [hs] at h
      obtain ⟨a, hle, hlt, hfa, hbefore⟩ := ih h
      refine ⟨a, by omega, by omega, hfa, fun x h1 h2 => ?_⟩
      rcases Nat.lt_or_eq_of_le h1 with hx | rfl
      · exact hbefore x hx h2
      · exact hs

/-- The loop runs to its end when no iteration returns. -/
theorem findSome_range'_eq_none (h : (List.range' s n).findSome? f = none) :
    ∀ x, s ≤ x → x < s + n → f x = none :=
  fun x h1 h2 => List.findSome?_eq_none_iff.mp h x (List.mem_range'_1.mpr ⟨h1, h2⟩)

/-- A loop through known states. -/
theorem foldlM_range {σ : Type*} {body : σ → Nat → Option σ} (state : Nat → σ) (n : Nat)
    (h : ∀ i, i < n → body (state i) i = some (state (i + 1))) :
    (List.range n).foldlM body (state 0) = some (state n) := by
  induction n with
  | zero => rfl
  | succ n ih =>
    rw [List.range_succ, List.foldlM_append, ih fun i hi => h i (Nat.lt_succ_of_lt hi)]
    simp only [Option.bind_eq_bind, Option.bind_some, List.foldlM_cons, List.foldlM_nil,
      h n (Nat.lt_succ_self n)]
    rfl

end MyOs.Lib.Loops
