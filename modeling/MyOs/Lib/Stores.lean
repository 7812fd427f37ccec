/-
  A sequence of stores into a memory.

  A program that fills tables performs a long list of stores, and what it leaves at an address is
  decided by the LAST store to it.  `storeAll` is the memory after such a list; its lemmas read
  one address: no store hit it, one store was the last, or all stores to it agree.

  The addresses a program stores to are often not the addresses of the memory: they pass through
  a translation that can fault.  `storeAllVia` runs the same list through a partial translation
  and stops at the first fault.
-/
import Mathlib.Data.List.Nodup
import Mathlib.Logic.Function.Basic

namespace MyOs.Lib.Stores

variable {α β γ : Type*} [DecidableEq α]

/-! ## Stores into the memory itself -/

/-- The memory after the stores `ws`, oldest first. -/
def storeAll (mem : α → β) (ws : List (α × β)) : α → β :=
  ws.foldl (fun mem w => Function.update mem w.1 w.2) mem

@[simp] theorem storeAll_nil (mem : α → β) : storeAll mem [] = mem := rfl

@[simp] theorem storeAll_cons (mem : α → β) (w : α × β) (ws : List (α × β)) :
    storeAll mem (w :: ws) = storeAll (Function.update mem w.1 w.2) ws := rfl

theorem storeAll_append (mem : α → β) (ws ws' : List (α × β)) :
    storeAll mem (ws ++ ws') = storeAll (storeAll mem ws) ws' := List.foldl_append

/-- An address no store hits keeps its content. -/
theorem storeAll_of_ne {a : α} : ∀ {ws : List (α × β)} {mem : α → β},
    (∀ w ∈ ws, w.1 ≠ a) → storeAll mem ws a = mem a
  | [], _, _ => rfl
  | w :: ws, mem, h => by
    rw [storeAll_cons, storeAll_of_ne (fun w' hw' => h w' (List.mem_cons_of_mem w hw'))]
    exact Function.update_of_ne (h w List.mem_cons_self).symm _ _

/-- The last store to an address decides. -/
theorem storeAll_last {a : α} {v : β} {pre post : List (α × β)} {mem : α → β}
    (h : ∀ w ∈ post, w.1 ≠ a) : storeAll mem (pre ++ (a, v) :: post) a = v := by
  rw [storeAll_append, storeAll_cons, storeAll_of_ne h]
  exact Function.update_self ..

/-- When all stores to an address agree, it holds their value. -/
theorem storeAll_of_agree {a : α} {v : β} : ∀ {ws : List (α × β)} {mem : α → β},
    (a, v) ∈ ws → (∀ w ∈ ws, w.1 = a → w.2 = v) → storeAll mem ws a = v
  | [], _, hmem, _ => nomatch hmem
  | w :: ws, mem, hmem, hagree => by
    have hagree' : ∀ w' ∈ ws, w'.1 = a → w'.2 = v :=
      fun w' hw' => hagree w' (List.mem_cons_of_mem w hw')
    by_cases hlater : ∃ u, (a, u) ∈ ws
    · obtain ⟨u, hu⟩ := hlater
      have huv : u = v := hagree' (a, u) hu rfl
      rw [storeAll_cons]
      exact storeAll_of_agree (huv ▸ hu) hagree'
    · have hne : ∀ w' ∈ ws, w'.1 ≠ a := fun w' hw' heq => hlater ⟨w'.2, heq ▸ hw'⟩
      rcases List.mem_cons.mp hmem with rfl | hmem
      · rw [storeAll_cons, storeAll_of_ne hne]
        exact Function.update_self ..
      · exact absurd rfl (hne (a, v) hmem)

/-- Stores to distinct addresses all stay. -/
theorem storeAll_of_nodup {a : α} {v : β} {ws : List (α × β)} (hnodup : (ws.map Prod.fst).Nodup)
    (mem : α → β) (hmem : (a, v) ∈ ws) : storeAll mem ws a = v := by
  refine storeAll_of_agree hmem fun w hw heq => ?_
  rw [List.inj_on_of_nodup_map hnodup hw hmem heq]

/-! ## Stores through a translation -/

/-- One store through a translation: a fault when the address has none. -/
def storeVia (tr : γ → Option α) (mem : α → β) (w : γ × β) : Option (α → β) :=
  (tr w.1).map fun a => Function.update mem a w.2

/-- A load through a translation. -/
def loadVia (tr : γ → Option α) (mem : α → β) (a : γ) : Option β := (tr a).map mem

/-- A sequence of stores through a translation. -/
def storeAllVia (tr : γ → Option α) (mem : α → β) (ws : List (γ × β)) : Option (α → β) :=
  ws.foldlM (storeVia tr) mem

theorem storeAllVia_cons (tr : γ → Option α) (mem : α → β) (w : γ × β) (ws : List (γ × β)) :
    storeAllVia tr mem (w :: ws) = (storeVia tr mem w).bind fun mem => storeAllVia tr mem ws :=
  rfl

theorem storeAllVia_append (tr : γ → Option α) (mem : α → β) (ws ws' : List (γ × β)) :
    storeAllVia tr mem (ws ++ ws')
      = (storeAllVia tr mem ws).bind fun mem => storeAllVia tr mem ws' :=
  List.foldlM_append

theorem storeAllVia_singleton (tr : γ → Option α) (mem : α → β) (w : γ × β) :
    storeAllVia tr mem [w] = storeVia tr mem w := by
  rw [storeAllVia_cons]
  exact Option.bind_fun_some _

/-- A loop whose body is a sequence of stores is one longer sequence. -/
theorem foldlM_storeAllVia {ι : Type*} (tr : γ → Option α) (body : ι → List (γ × β)) :
    ∀ (is : List ι) (mem : α → β),
      is.foldlM (fun mem i => storeAllVia tr mem (body i)) mem
        = storeAllVia tr mem (is.flatMap body)
  | [], _ => rfl
  | i :: is, mem => by
    rw [List.flatMap_cons, storeAllVia_append, List.foldlM_cons]
    show (storeAllVia tr mem (body i)).bind _ = (storeAllVia tr mem (body i)).bind _
    congr 1
    funext mem'
    exact foldlM_storeAllVia tr body is mem'

/-- The same for a body of one store. -/
theorem foldlM_storeVia {ι : Type*} (tr : γ → Option α) (w : ι → γ × β) (is : List ι)
    (mem : α → β) :
    is.foldlM (fun mem i => storeVia tr mem (w i)) mem = storeAllVia tr mem (is.map w) := by
  rw [storeAllVia, List.foldlM_map]

/-- When every address translates, the stores are stores to the translations. -/
theorem storeAllVia_eq_some {ι : Type*} {tr : γ → Option α} {va : ι → γ} {pa : ι → α}
    {val : ι → β} : ∀ {is : List ι} {mem : α → β}, (∀ i ∈ is, tr (va i) = some (pa i)) →
      storeAllVia tr mem (is.map fun i => (va i, val i))
        = some (storeAll mem (is.map fun i => (pa i, val i)))
  | [], _, _ => rfl
  | i :: is, mem, h => by
    rw [List.map_cons, storeAllVia_cons, storeVia, h i List.mem_cons_self, Option.map_some,
      Option.bind_some, storeAllVia_eq_some (fun i' hi' => h i' (List.mem_cons_of_mem i hi'))]
    rfl

/-- When the stores do not fault, every address translates. -/
theorem isSome_of_storeAllVia {tr : γ → Option α} : ∀ {ws : List (γ × β)} {mem mem' : α → β},
    storeAllVia tr mem ws = some mem' → ∀ w ∈ ws, (tr w.1).isSome
  | [], _, _, _, w, hw => nomatch hw
  | w :: ws, mem, mem', h, w', hw' => by
    cases htr : tr w.1 with
    | none =>
      rw [storeAllVia_cons, storeVia, htr] at h
      nomatch h
    | some a =>
      rcases List.mem_cons.mp hw' with rfl | hw'
      · rw [htr]; rfl
      · rw [storeAllVia_cons, storeVia, htr] at h
        exact isSome_of_storeAllVia h w' hw'

end MyOs.Lib.Stores
