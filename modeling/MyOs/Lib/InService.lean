/-
  The interrupts in service of a controller in fully nested mode.

  The requests are ordered, the least of them has the highest priority.  A request that is accepted
  is in service; an end of interrupt takes out the one of the highest priority, whichever was meant.
  A request is blocked while one of its priority or a higher one is in service.
-/
import Mathlib.Data.Finset.Max

namespace MyOs.Lib.InService

variable {α : Type*} [LinearOrder α] {s : Finset α} {n k : α}

def accept (s : Finset α) (n : α) : Finset α := insert n s

/-- The nonspecific end of interrupt. -/
def endOfInterrupt (s : Finset α) : Finset α :=
  if h : s.Nonempty then s.erase (s.min' h) else s

/-- A request that is not delivered. -/
def Blocked (s : Finset α) (n : α) : Prop := ∃ k ∈ s, k ≤ n

theorem blocked_accept (s : Finset α) (n : α) : Blocked (accept s n) n :=
  ⟨n, Finset.mem_insert_self n s, le_refl n⟩

/-- What is blocked stays so while requests are accepted. -/
theorem Blocked.accept (h : Blocked s n) (k : α) : Blocked (accept s k) n := by
  obtain ⟨m, hm, hle⟩ := h
  exact ⟨m, Finset.mem_insert_of_mem hm, hle⟩

/-- **A request that was not blocked is taken out again** by the end of interrupt. -/
theorem endOfInterrupt_accept (h : ¬ Blocked s n) :
    endOfInterrupt (accept s n) = s := by
  have hlt : ∀ k ∈ s, n < k := fun k hk => lt_of_not_ge fun hle => h ⟨k, hk, hle⟩
  have hnot : n ∉ s := fun hn => lt_irrefl n (hlt n hn)
  have hne : (accept s n).Nonempty := Finset.insert_nonempty n s
  -- all others have a lower priority
  have hmin : (accept s n).min' hne = n := by
    rw [Finset.min'_eq_iff]
    refine ⟨Finset.mem_insert_self n s, fun k hk => ?_⟩
    rcases Finset.mem_insert.mp hk with rfl | hk
    · exact le_refl k
    · exact le_of_lt (hlt k hk)
  rw [endOfInterrupt, dif_pos hne, hmin]
  exact Finset.erase_insert hnot

end MyOs.Lib.InService
