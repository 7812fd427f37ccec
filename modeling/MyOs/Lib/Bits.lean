/-
  Bits of a byte, read and written the way C code does it with shifts and masks.

  A C program that keeps a set of flags in an array of `uint8_t` reads flag `i` of a byte as
  `(x >> i) & 1`, sets it with `x |= 1 << i` and clears it with `x &= ~(1 << i)`.  The lemmas
  below say what each of the three does to `Nat.testBit`, so that a proof about such a program
  never unfolds a shift again.  The last one is about a mask of high bits, which rounds a word down.
-/
import Mathlib.Data.Nat.Bitwise

namespace MyOs.Lib.Bits

/-- `1 << i`, for a shift count that C leaves defined on a byte. -/
theorem one_shl_toNat (i : UInt8) (hi : i.toNat < 8) :
    ((1 : UInt8) <<< i).toNat = 2 ^ i.toNat := by
  rw [UInt8.toNat_shiftLeft, Nat.mod_eq_of_lt hi, UInt8.toNat_one, Nat.one_shiftLeft]
  exact Nat.mod_eq_of_lt (Nat.pow_lt_pow_right (by decide) hi)

/-- `1 << i` computed in 32 bits, where it fits into a byte. -/
theorem toUInt8_one_shl {i : UInt8} (hi : i.toNat < 8) :
    ((1 : UInt32) <<< i.toUInt32).toUInt8 = 1 <<< i := by
  apply UInt8.toNat_inj.mp
  have hpow : 2 ^ i.toNat < 2 ^ 8 := Nat.pow_lt_pow_right (by decide) hi
  rw [one_shl_toNat i hi, UInt32.toNat_toUInt8, UInt32.toNat_shiftLeft, UInt8.toNat_toUInt32,
    Nat.mod_eq_of_lt (Nat.lt_trans hi (by decide)), UInt32.toNat_one, Nat.one_shiftLeft,
    Nat.mod_eq_of_lt (Nat.lt_trans hpow (by decide)), Nat.mod_eq_of_lt hpow]

/-- `1 << i` computed in 32 bits, where it does not. -/
theorem toUInt8_one_shl_eq_zero {i : UInt8} (hle : 8 ≤ i.toNat) (hlt : i.toNat < 32) :
    ((1 : UInt32) <<< i.toUInt32).toUInt8 = 0 := by
  apply UInt8.toNat_inj.mp
  have hpow : 2 ^ i.toNat < 2 ^ 32 := Nat.pow_lt_pow_right (by decide) hlt
  rw [UInt32.toNat_toUInt8, UInt32.toNat_shiftLeft, UInt8.toNat_toUInt32, Nat.mod_eq_of_lt hlt,
    UInt32.toNat_one, Nat.one_shiftLeft, Nat.mod_eq_of_lt hpow]
  exact Nat.mod_eq_zero_of_dvd (Nat.pow_dvd_pow 2 hle)

/-- Reading: `(x >> i) & 1` is bit `i`. -/
theorem shr_and_one (x i : UInt8) (hi : i.toNat < 8) :
    ((x >>> i) &&& 1 != 0) = x.toNat.testBit i.toNat := by
  have hne : ((x >>> i) &&& 1 != 0) = (((x >>> i) &&& 1).toNat != 0) := by
    rw [Bool.eq_iff_iff]
    simp [bne_iff_ne, ← UInt8.toNat_inj]
  rw [hne, UInt8.toNat_and, UInt8.toNat_shiftRight, Nat.mod_eq_of_lt hi]
  simp [Nat.testBit, Nat.and_comm]

/-- Testing: `x & (1 << i)` is zero when bit `i` is clear. -/
theorem and_one_shl_eq_zero_iff (x i : UInt8) (hi : i.toNat < 8) :
    x &&& (1 <<< i) = 0 ↔ x.toNat.testBit i.toNat = false := by
  rw [← UInt8.toNat_inj, UInt8.toNat_and, one_shl_toNat i hi, Nat.and_two_pow]
  cases x.toNat.testBit i.toNat <;> simp

/-- Setting: `x | (1 << i)` has bit `i` set and every other bit as before. -/
theorem testBit_or_one_shl (x i : UInt8) (j : Nat) (hi : i.toNat < 8) :
    (x ||| (1 <<< i)).toNat.testBit j = (decide (i.toNat = j) || x.toNat.testBit j) := by
  rw [UInt8.toNat_or, one_shl_toNat i hi, Nat.testBit_or, Nat.testBit_two_pow, Bool.or_comm]

/-- Clearing: `x & ~(1 << i)` has bit `i` clear and every other bit as before. -/
theorem testBit_and_not_one_shl (x i : UInt8) (j : Nat) (hi : i.toNat < 8) (hj : j < 8) :
    (x &&& ~~~(1 <<< i)).toNat.testBit j = (!decide (i.toNat = j) && x.toNat.testBit j) := by
  have hlt : 2 ^ i.toNat < 2 ^ 8 := Nat.pow_lt_pow_right (by decide) hi
  rw [UInt8.toNat_and, UInt8.toNat_not, one_shl_toNat i hi, Nat.testBit_and,
    show UInt8.size - 1 - 2 ^ i.toNat = 2 ^ 8 - (2 ^ i.toNat + 1) by simp [UInt8.size],
    Nat.testBit_two_pow_sub_succ hlt, Nat.testBit_two_pow]
  simp [hj, Bool.and_comm]

/-- Every bit of `0xFF` is set. -/
theorem testBit_ff {j : Nat} (hj : j < 8) : (0xFF : UInt8).toNat.testBit j = true := by
  revert j
  decide

/-- A byte all of whose bits are set is `0xFF`. -/
theorem eq_ff_of_testBit (x : UInt8) (h : ∀ j, j < 8 → x.toNat.testBit j = true) : x = 0xFF := by
  apply UInt8.toNat_inj.mp
  apply Nat.eq_of_testBit_eq
  intro j
  rcases Nat.lt_or_ge j 8 with hj | hj
  · rw [h j hj, testBit_ff hj]
  · have hpow : 2 ^ 8 ≤ 2 ^ j := Nat.pow_le_pow_right (by decide) hj
    have hx : x.toNat < 2 ^ 8 := x.toNat_lt
    rw [Nat.testBit_lt_two_pow (Nat.lt_of_lt_of_le hx hpow),
      Nat.testBit_lt_two_pow (Nat.lt_of_lt_of_le (by decide) hpow)]

/-- Clearing the low bits of a word: `x & ~(2^i - 1)` is `x` rounded down. -/
theorem toNat_and_high {x mask : UInt32} {i : Nat} (hi : i ≤ 32)
    (hmask : mask.toNat = 2 ^ 32 - 2 ^ i) : (x &&& mask).toNat = x.toNat / 2 ^ i * 2 ^ i := by
  have hlt : x.toNat < 2 ^ 32 := x.toNat_lt
  have hpow : (2 ^ 32 - 2 ^ i : Nat) = (2 ^ (32 - i) - 1) * 2 ^ i := by
    rw [Nat.sub_mul, ← Nat.pow_add, Nat.sub_add_cancel hi, Nat.one_mul]
  rw [UInt32.toNat_and, hmask, hpow]
  apply Nat.eq_of_testBit_eq
  intro j
  rw [Nat.testBit_and, Nat.testBit_mul_two_pow, Nat.testBit_mul_two_pow, Nat.testBit_div_two_pow,
    Nat.testBit_two_pow_sub_one]
  by_cases hj : i ≤ j
  · simp only [hj, decide_true, Bool.true_and]
    rw [Nat.sub_add_cancel hj]
    by_cases hj' : j - i < 32 - i
    · rw [decide_eq_true hj', Bool.and_true]
    · rw [Nat.testBit_lt_two_pow (Nat.lt_of_lt_of_le hlt (Nat.pow_le_pow_right (by decide)
        (show 32 ≤ j by omega))), Bool.false_and]
  · simp [hj]

end MyOs.Lib.Bits
