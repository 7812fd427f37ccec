/-
  Blocks of data, copied into a memory one behind the other.

  `blit` copies one block; `blitAll` copies block `i` to the offset `i * step`, whatever the lengths
  of the blocks are.  When every block is `step` long, the blocks fill the memory from its beginning
  on (`blitAll_full`), and a memory that is filled in two parts is filled in one
  (`blitAll_succ`).
-/
import Mathlib.Data.List.Range

namespace MyOs.Lib.Blocks

variable {β : Type*}

/-- The memory with `n` cells from `offset` on copied from `src`. -/
def blit (offset n : Nat) (src mem : Nat → β) : Nat → β := fun j =>
  if offset ≤ j ∧ j < offset + n then src (j - offset) else mem j

/-- Block `i` of length `len i` at `i * step`, for the first `k` blocks in their order. -/
def blitAll (step : Nat) (len : Nat → Nat) (block : Nat → Nat → β) (mem : Nat → β) (k : Nat) :
    Nat → β :=
  (List.range k).foldl (fun mem i => blit (i * step) (len i) (block i) mem) mem

theorem blitAll_zero (step : Nat) (len : Nat → Nat) (block : Nat → Nat → β) (mem : Nat → β) :
    blitAll step len block mem 0 = mem := rfl

theorem blitAll_succ (step : Nat) (len : Nat → Nat) (block : Nat → Nat → β) (mem : Nat → β)
    (k : Nat) : blitAll step len block mem (k + 1)
      = blit (k * step) (len k) (block k) (blitAll step len block mem k) := by
  rw [blitAll, List.range_succ, List.foldl_append]
  rfl

/-- **Full blocks** lie one behind the other, and the memory behind them is as it was. -/
theorem blitAll_full {step : Nat} (hstep : 0 < step) (block : Nat → Nat → β) (mem : Nat → β)
    {len : Nat → Nat} : ∀ {k : Nat}, (∀ i, i < k → len i = step) → ∀ j,
      blitAll step len block mem k j
        = if j < k * step then block (j / step) (j % step) else mem j
  | 0, _, j => by
    rw [blitAll_zero, Nat.zero_mul, if_neg (Nat.not_lt_zero j)]
  | k + 1, hlen, j => by
    have ih := blitAll_full hstep block mem (fun i hi => hlen i (Nat.lt_succ_of_lt hi)) j
    rw [blitAll_succ, blit, hlen k (Nat.lt_succ_self k), ih, Nat.succ_mul]
    by_cases hhere : k * step ≤ j ∧ j < k * step + step
    · obtain ⟨d, rfl⟩ := Nat.exists_eq_add_of_le hhere.1
      have hd : d < step := by omega
      have hdiv : (k * step + d) / step = k := by
        rw [Nat.add_comm, Nat.add_mul_div_right _ _ hstep, Nat.div_eq_of_lt hd, Nat.zero_add]
      have hmod : (k * step + d) % step = d := by
        rw [Nat.add_comm, Nat.add_mul_mod_self_right, Nat.mod_eq_of_lt hd]
      rw [if_pos hhere, if_pos hhere.2, hdiv, hmod, Nat.add_sub_cancel_left]
    · rw [if_neg hhere]
      by_cases hbefore : j < k * step
      · rw [if_pos hbefore, if_pos (by omega)]
      · rw [if_neg hbefore, if_neg (by omega)]

end MyOs.Lib.Blocks
