/-
  Tables of two levels, of which the upper is entered once and the lower is overwritten.

  An action has a key for the upper level and one for the lower.  It enters its value in the upper
  level when there is none for its key, and in the lower level in any case.

  * `run_upper` : after a run the upper level has the values of the first actions with each key;
  * `run_lower` : the lower level has those of the last.
-/
import Mathlib.Data.List.Basic
import Mathlib.Logic.Function.Basic

namespace MyOs.Lib

/-- The entries of two levels. -/
structure Levels (κ ι β γ : Type*) where
  upper : κ → Option β
  lower : ι → Option γ

namespace Levels

variable {α κ ι β γ : Type*}

/-- No entries. -/
def empty : Levels κ ι β γ := ⟨fun _ => none, fun _ => none⟩

variable [DecidableEq κ] [DecidableEq ι]

/-- One action. -/
def enter (t : Levels κ ι β γ) (k : κ) (i : ι) (b : β) (c : γ) : Levels κ ι β γ where
  upper := Function.update t.upper k ((t.upper k).or (some b))
  lower := Function.update t.lower i (some c)

theorem enter_upper (t : Levels κ ι β γ) (k k' : κ) (i : ι) (b : β) (c : γ) :
    (t.enter k i b c).upper k' = if k' = k then (t.upper k).or (some b) else t.upper k' :=
  Function.update_apply ..

theorem enter_lower (t : Levels κ ι β γ) (k : κ) (i i' : ι) (b : β) (c : γ) :
    (t.enter k i b c).lower i' = if i' = i then some c else t.lower i' :=
  Function.update_apply ..

/-- The first action with a key. -/
def first (key : α → κ) (as : List α) (k : κ) : Option α := as.find? fun a => key a = k

/-- The last one. -/
def last (key : α → ι) (as : List α) (i : ι) : Option α := as.reverse.find? fun a => key a = i

theorem first_cons_of_eq (key : α → κ) {a : α} {k : κ} (h : key a = k) (as : List α) :
    first key (a :: as) k = some a :=
  List.find?_cons_of_pos (decide_eq_true h)

theorem of_last_eq_some {key : α → ι} {as : List α} {i : ι} {a : α}
    (h : last key as i = some a) : a ∈ as ∧ key a = i :=
  ⟨List.mem_reverse.mp (List.mem_of_find?_eq_some h),
    of_decide_eq_true (List.find?_some (p := fun a => key a = i) h)⟩

section Run

variable (key : α → κ) (index : α → ι) (x : α → β) (y : α → γ)

/-- Some actions. -/
def run (t : Levels κ ι β γ) (as : List α) : Levels κ ι β γ :=
  as.foldl (fun t a => t.enter (key a) (index a) (x a) (y a)) t

/-- **The upper level** keeps what it has, and what is entered first. -/
theorem run_upper (k : κ) : ∀ (as : List α) (t : Levels κ ι β γ),
    (run key index x y t as).upper k = (t.upper k).or ((first key as k).map x)
  | [], t => (Option.or_none).symm
  | a :: as, t => by
    refine (run_upper k as _).trans ?_
    rw [enter_upper, first, first, List.find?_cons]
    by_cases hk : key a = k
    · simp [hk]
    · simp [hk, Ne.symm hk]

/-- **The lower level** has what is entered last. -/
theorem run_lower (i : ι) : ∀ (as : List α) (t : Levels κ ι β γ),
    (run key index x y t as).lower i = ((last index as i).map y).or (t.lower i)
  | [], t => rfl
  | a :: as, t => by
    refine (run_lower i as _).trans ?_
    rw [enter_lower, last, last, List.reverse_cons, List.find?_append, Option.map_or,
      Option.or_assoc]
    congr 1
    by_cases hi : index a = i
    · simp [hi]
    · simp [hi, Ne.symm hi]

end Run

end Levels

end MyOs.Lib
