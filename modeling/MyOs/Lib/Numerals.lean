/-
  Numbers written in a base, the most significant digit first.

  `numeral` is what one writes for a number: its digits, and `0` for zero.  A program finds them in
  the other order, the last digit first (`numeral_of_le`), until the number is a digit itself
  (`numeral_of_lt`).

  Whoever writes digits as characters and can tell which digit a character stands for (`Reads`)
  has a notation: `parse` gets the number back (`parse_numeral`).
-/
import Mathlib.Data.Nat.Digits.Lemmas

namespace MyOs.Lib.Numerals

/-- The number that some digits stand for. -/
def value (base : Nat) (digits : List Nat) : Nat := digits.foldl (fun n d => n * base + d) 0

/-- The digits of a number. -/
def numeral (base n : Nat) : List Nat := if n = 0 then [0] else (Nat.digits base n).reverse

variable {base : Nat}

theorem value_concat (digits : List Nat) (d : Nat) :
    value base (digits ++ [d]) = value base digits * base + d := by
  rw [value, List.foldl_concat]
  rfl

theorem value_reverse (digits : List Nat) :
    value base digits.reverse = Nat.ofDigits base digits := by
  induction digits with
  | nil => rfl
  | cons d digits ih =>
    rw [List.reverse_cons, value_concat, ih, Nat.ofDigits_cons, Nat.add_comm, Nat.mul_comm]

theorem value_numeral (n : Nat) : value base (numeral base n) = n := by
  unfold numeral
  split
  · rename_i hzero
    simp [value, hzero]
  · rw [value_reverse, Nat.ofDigits_digits]

/-- A number below the base is its own digit. -/
theorem numeral_of_lt {n : Nat} (h : n < base) : numeral base n = [n] := by
  unfold numeral
  split
  · rename_i hzero
    rw [hzero]
  · rename_i hzero
    rw [Nat.digits_of_lt base n hzero h]
    rfl

/-- The last digit of another one is what is left of it by the base. -/
theorem numeral_of_le {n : Nat} (hbase : 1 < base) (h : base ≤ n) :
    numeral base n = numeral base (n / base) ++ [n % base] := by
  have hn : n ≠ 0 := by omega
  have hdiv : n / base ≠ 0 := (Nat.div_pos h (by omega)).ne'
  rw [numeral, if_neg hn, numeral, if_neg hdiv, Nat.digits_eq_cons_digits_div hbase hn,
    List.reverse_cons]

theorem lt_of_mem_numeral {n d : Nat} (hbase : 1 < base) (h : d ∈ numeral base n) : d < base := by
  unfold numeral at h
  split at h
  · rw [List.mem_singleton.mp h]
    omega
  · exact Nat.digits_lt_base hbase (List.mem_reverse.mp h)

theorem numeral_ne_nil (base n : Nat) : numeral base n ≠ [] := by
  unfold numeral
  split
  · exact List.cons_ne_nil 0 []
  · rename_i hzero
    rw [Ne, List.reverse_eq_nil_iff]
    exact Nat.digits_ne_nil_iff_ne_zero.mpr hzero

theorem length_numeral_pos (base n : Nat) : 0 < (numeral base n).length :=
  List.length_pos_of_ne_nil (numeral_ne_nil base n)

theorem length_numeral_le {n k : Nat} (hbase : 1 < base) (hk : 1 ≤ k) (h : n < base ^ k) :
    (numeral base n).length ≤ k := by
  unfold numeral
  split
  · exact hk
  · rw [List.length_reverse]
    exact (Nat.digits_length_le_iff hbase n).mpr h

/-- Only the numeral of zero begins with a zero. -/
theorem head?_numeral {n : Nat} (h : (numeral base n).head? = some 0) : n = 0 := by
  by_contra hzero
  have hne : Nat.digits base n ≠ [] := Nat.digits_ne_nil_iff_ne_zero.mpr hzero
  rw [numeral, if_neg hzero, List.head?_reverse, List.getLast?_eq_some_getLast hne] at h
  exact Nat.getLast_digit_ne_zero base hzero (Option.some.inj h)

/-! ## Digits as characters -/

section Characters

variable {Character : Type*} {write : Nat → Character} {read : Character → Option Nat}

/-- The number that some characters stand for, if all of them are digits. -/
def parse (base : Nat) (read : Character → Option Nat) (text : List Character) : Option Nat :=
  (text.mapM read).map (value base)

/-- A reader of digits knows the characters of a writer, for the digits of a base. -/
def Reads (base : Nat) (write : Nat → Character) (read : Character → Option Nat) : Prop :=
  ∀ d, d < base → read (write d) = some d

theorem mapM_write (h : Reads base write read) : ∀ {digits : List Nat},
    (∀ d ∈ digits, d < base) → (digits.map write).mapM read = some digits
  | [], _ => rfl
  | d :: digits, hdigits => by
    have hrest := mapM_write h fun d' hd' => hdigits d' (List.mem_cons_of_mem d hd')
    rw [List.map_cons, List.mapM_cons, h d (hdigits d List.mem_cons_self), hrest]
    rfl

/-- **What is written can be read.** -/
theorem parse_numeral (hbase : 1 < base) (h : Reads base write read) (n : Nat) :
    parse base read ((numeral base n).map write) = some n := by
  rw [parse, mapM_write h fun d => lt_of_mem_numeral hbase, Option.map_some, value_numeral]

end Characters

end MyOs.Lib.Numerals
