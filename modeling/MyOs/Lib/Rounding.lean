/-
  Rounding an interval to blocks.

  An allocator that hands out blocks of `n` addresses turns an interval `[a, b)` into a range of
  block numbers, and it rounds in one of two ways.  Rounded outwards, the range holds the blocks that
  meet the interval; rounded inwards, the blocks that lie in it.  The two theorems say that
  division, with `n - 1` added in front of it where it has to round up, computes exactly that, for any
  `n` and wherever the ends lie.
-/
import Mathlib.Order.Interval.Set.LinearOrder

namespace MyOs.Lib.Rounding

/-- The addresses of block `p`. -/
def block (n p : Nat) : Set Nat := Set.Ico (n * p) (n * (p + 1))

variable {n a b p : Nat}

/-! ## Comparing a rounded number -/

theorem down_le_iff (hn : 0 < n) : a / n ≤ p ↔ a < n * (p + 1) := by
  rw [← Nat.lt_succ_iff, Nat.div_lt_iff_lt_mul hn, Nat.mul_comm]

theorem lt_down_iff (hn : 0 < n) : p < b / n ↔ n * (p + 1) ≤ b := by
  rw [← Nat.not_le, down_le_iff hn, Nat.not_lt]

theorem lt_up_iff (hn : 0 < n) : p < (b + (n - 1)) / n ↔ n * p < b := by
  rw [lt_down_iff hn, Nat.mul_succ]
  omega

theorem up_le_iff (hn : 0 < n) : (a + (n - 1)) / n ≤ p ↔ a ≤ n * p := by
  rw [← Nat.not_lt, lt_up_iff hn, Nat.not_lt]

/-! ## Blocks and intervals -/

/-- No block is empty. -/
theorem block_bounds (hn : 0 < n) : n * p < n * (p + 1) :=
  Nat.mul_lt_mul_of_pos_left p.lt_succ_self hn

/-- **Outwards**: from the floor of the beginning up to the ceiling of the end are the blocks that
    meet the interval. -/
theorem block_meets_iff (hn : 0 < n) (hab : a < b) :
    (block n p ∩ Set.Ico a b).Nonempty ↔ a / n ≤ p ∧ p < (b + (n - 1)) / n := by
  rw [down_le_iff hn, lt_up_iff hn, block, Set.Ico_inter_Ico, Set.nonempty_Ico,
    sup_lt_iff, lt_inf_iff, lt_inf_iff]
  constructor
  · rintro ⟨⟨-, hend⟩, hstart, -⟩
    exact ⟨hstart, hend⟩
  · rintro ⟨hstart, hend⟩
    exact ⟨⟨block_bounds hn, hend⟩, hstart, hab⟩

/-- **Inwards**: from the ceiling of the beginning up to the floor of the end are the blocks that
    lie in the interval. -/
theorem block_subset_iff (hn : 0 < n) :
    block n p ⊆ Set.Ico a b ↔ (a + (n - 1)) / n ≤ p ∧ p < b / n := by
  rw [block, Set.Ico_subset_Ico_iff (block_bounds hn), up_le_iff hn, lt_down_iff hn]

end MyOs.Lib.Rounding
