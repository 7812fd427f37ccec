/-
  Numbers as text: `itoa` and `itoa_hex`.

  Both write the digits of the number, the last one first, and turn the string round.

  1. **The loop** (`digitLoop_eq`): it leaves the digits of the number in reverse.
  2. **The reversal** (`reverse_eq`): two indices run from the ends towards each other; what is
     outside them is already reversed.
  3. **The result** (`printNumber_eq`): the numeral of the number, and nothing written behind its
     terminator.
-/
import MyOs.Lib.Numerals
import MyOs.Libraries.Strings
import Mathlib.Data.List.Induction

namespace MyOs.Libraries

open Lib.Numerals

/-! ## The program -/

/-- The loop of `reverse`.  For the empty string `j` begins at -1. -/
def reverseLoop : Nat → List UInt8 → Nat → Int → Option (List UInt8)
  | 0, _, _, _ => none
  | fuel + 1, s, i, j =>
    if (i : Int) < j then do
      let c1 ← s[i]?
      let c2 ← s[j.toNat]?
      let s1 ← store s i c2
      let s2 ← store s1 j.toNat c1
      reverseLoop fuel s2 (i + 1) (j - 1)
    else some s

/-- `reverse`. -/
def reverse (s : List UInt8) : Option (List UInt8) := do
  let len ← strlen s
  reverseLoop s.length s 0 ((len : Int) - 1)

/-- The `do` loop of `itoa` and `itoa_hex`, from `s[i]` on: the array, and the index behind the last
    digit. -/
def digitLoop (base : UInt32) (digit : UInt32 → UInt8) :
    Nat → UInt32 → List UInt8 → Nat → Option (List UInt8 × Nat)
  | 0, _, _, _ => none
  | fuel + 1, n, s, i => do
    let s1 ← store s i (digit (n % base))
    if n / base > 0 then digitLoop base digit fuel (n / base) s1 (i + 1) else some (s1, i + 1)

/-- What `itoa` and `itoa_hex` have in common. -/
def printNumber (base : UInt32) (digit : UInt32 → UInt8) (n : UInt32) (s : List UInt8) :
    Option (List UInt8) := do
  let (s1, i) ← digitLoop base digit s.length n s 0
  let s2 ← store s1 i 0
  reverse s2

/-- `n % 10 + '0'`. -/
def decimalDigit (d : UInt32) : UInt8 := (d + 48).toUInt8

/-- The digit that `itoa_hex` stores: `digit + '0'`, or `digit - 10 + 'A'`. -/
def hexDigit (d : UInt32) : UInt8 := if d < 10 then (d + 48).toUInt8 else (d - 10 + 65).toUInt8

/-- `itoa`. -/
def itoa : UInt32 → List UInt8 → Option (List UInt8) := printNumber 10 decimalDigit

/-- `itoa_hex`. -/
def itoaHex : UInt32 → List UInt8 → Option (List UInt8) := printNumber 16 hexDigit

/-! ## Reading numbers -/

/-- The value of a character from '0' to '9'. -/
def readDecimal (c : UInt8) : Option Nat :=
  if '0'.toUInt8 ≤ c ∧ c ≤ '9'.toUInt8 then some (c.toNat - '0'.toNat) else none

/-- The value of a character from '0' to '9' or from 'A' to 'F'. -/
def readHex (c : UInt8) : Option Nat :=
  if '0'.toUInt8 ≤ c ∧ c ≤ '9'.toUInt8 then some (c.toNat - '0'.toNat)
  else if 'A'.toUInt8 ≤ c ∧ c ≤ 'F'.toUInt8 then some (c.toNat - 'A'.toNat + 10)
  else none

/-! ## Turning a string round -/

/-- The loop, with `mid` between the indices and everything outside them already in its place. -/
theorem reverseLoop_eq (mid : List UInt8) : ∀ (fuel : Nat) (left right : List UInt8),
    mid.length < fuel →
    reverseLoop fuel (left ++ (mid ++ right)) left.length ((left.length + mid.length : Nat) - 1)
      = some (left ++ (mid.reverse ++ right)) := by
  induction mid using List.bidirectionalRec with
  | nil =>
    intro fuel left right hfuel
    obtain ⟨fuel, rfl⟩ := Nat.exists_eq_add_of_lt hfuel
    rw [reverseLoop, if_neg (by rw [List.length_nil]; omega)]
    rfl
  | singleton a =>
    intro fuel left right hfuel
    rw [List.length_singleton] at hfuel
    obtain ⟨fuel, rfl⟩ : ∃ m, fuel = m + 1 := ⟨fuel - 1, by omega⟩
    rw [reverseLoop, if_neg (by rw [List.length_singleton]; omega)]
    rfl
  | cons_append a mid b ih =>
    intro fuel left right hfuel
    rw [List.length_cons, List.length_append, List.length_singleton] at hfuel ⊢
    obtain ⟨fuel, rfl⟩ : ∃ m, fuel = m + 1 := ⟨fuel - 1, by omega⟩
    -- the outer characters change places, and the loop goes on between them
    have hlast : (((left.length + (mid.length + 1 + 1) : Nat) : Int) - 1).toNat
        = (left ++ a :: mid).length := by
      rw [List.length_append, List.length_cons]
      omega
    have hlast' : (left ++ a :: mid).length = (left ++ b :: mid).length := by
      rw [List.length_append, List.length_append, List.length_cons, List.length_cons]
    have hnext := ih fuel (left ++ [b]) (a :: right) (by omega)
    rw [List.length_append, List.length_singleton, List.append_assoc, List.append_assoc,
      List.singleton_append] at hnext
    have hindex : ((left.length + (mid.length + 1 + 1) : Nat) : Int) - 1 - 1
        = ((left.length + 1 + mid.length : Nat) : Int) - 1 := by omega
    have harray : ∀ x, left ++ (x :: (mid ++ [b]) ++ right) = (left ++ x :: mid) ++ b :: right := by
      intro x
      simp
    rw [reverseLoop, if_pos (by omega), hlast, hindex, harray a, getElem?_border]
    have hfirst : ((left ++ a :: mid) ++ b :: right)[left.length]? = some a := by
      rw [List.append_assoc, List.cons_append, getElem?_border]
    have hstore : store ((left ++ a :: mid) ++ b :: right) left.length b
        = some ((left ++ b :: mid) ++ b :: right) := by
      rw [List.append_assoc, List.cons_append, store_border, List.append_assoc, List.cons_append]
    simp only [hfirst, hstore, hlast', store_border, Option.bind_eq_bind, Option.bind_some]
    rw [List.append_assoc, List.cons_append, hnext]
    simp

/-- **`reverse`** turns the string round, and leaves what is behind it. -/
theorem reverse_eq {w rest : List UInt8} (h : 0 ∉ w) :
    reverse (w ++ 0 :: rest) = some (w.reverse ++ 0 :: rest) := by
  rw [reverse, strlen_terminated h, Option.bind_eq_bind, Option.bind_some]
  have hloop := reverseLoop_eq w _ [] (0 :: rest) (length_lt_border [] w rest)
  rwa [List.nil_append, List.nil_append, List.length_nil, Nat.zero_add] at hloop

/-! ## The digits -/

/-- The text of a number. -/
def numberText (base : UInt32) (digit : UInt32 → UInt8) (n : UInt32) : List UInt8 :=
  (numeral base.toNat n.toNat).map fun d => digit (UInt32.ofNat d)

section Digits

variable {base : UInt32} {digit : UInt32 → UInt8}

theorem numberText_of_lt {n : UInt32} (h : n < base) : numberText base digit n = [digit n] := by
  rw [numberText, numeral_of_lt (UInt32.lt_iff_toNat_lt.mp h), List.map_singleton,
    UInt32.ofNat_toNat]

theorem numberText_of_le {n : UInt32} (hbase : 1 < base.toNat) (h : base ≤ n) :
    numberText base digit n = numberText base digit (n / base) ++ [digit (n % base)] := by
  rw [numberText, numeral_of_le hbase (UInt32.le_iff_toNat_le.mp h), List.map_append,
    List.map_singleton, numberText, UInt32.toNat_div, ← UInt32.toNat_mod, UInt32.ofNat_toNat]

/-- The loop, behind the digits it has already stored. -/
theorem digitLoop_eq (digit : UInt32 → UInt8) (hbase : 1 < base.toNat) :
    ∀ (fuel : Nat) (n : UInt32) (done dest : List UInt8),
    (numberText base digit n).length ≤ dest.length → dest.length ≤ fuel →
    digitLoop base digit fuel n (done ++ dest) done.length
      = some (done ++ ((numberText base digit n).reverse
            ++ dest.drop (numberText base digit n).length),
          done.length + (numberText base digit n).length)
  | fuel, n, done, [], hroom, _ => by
    rw [numberText, List.length_map] at hroom
    exact absurd (length_numeral_pos base.toNat n.toNat) (Nat.not_lt.mpr hroom)
  | fuel + 1, n, done, x :: dest, hroom, hfuel => by
    rw [List.length_cons] at hroom hfuel
    have hbase' : (0 : UInt32) < base := UInt32.lt_iff_toNat_lt.mpr (Nat.lt_of_succ_lt hbase)
    rw [digitLoop, store_border, Option.bind_eq_bind, Option.bind_some]
    by_cases hlast : n < base
    · -- the number is a digit itself
      have hdiv : ¬ n / base > 0 := by
        rw [gt_iff_lt, UInt32.lt_iff_toNat_lt, UInt32.toNat_div,
          Nat.div_eq_of_lt (UInt32.lt_iff_toNat_lt.mp hlast)]
        exact Nat.lt_irrefl 0
      have hmod : n % base = n := UInt32.toNat_inj.mp (by
        rw [UInt32.toNat_mod, Nat.mod_eq_of_lt (UInt32.lt_iff_toNat_lt.mp hlast)])
      rw [if_neg hdiv, hmod, numberText_of_lt hlast]
      rfl
    · -- the last digit is stored, and the others behind it
      have hle : base ≤ n := UInt32.not_lt.mp hlast
      have hdiv : n / base > 0 := by
        rw [gt_iff_lt, UInt32.lt_iff_toNat_lt, UInt32.toNat_div]
        exact Nat.div_pos (UInt32.le_iff_toNat_le.mp hle) (Nat.lt_of_succ_lt hbase)
      rw [numberText_of_le hbase hle, List.length_append, List.length_singleton] at hroom ⊢
      have hnext := digitLoop_eq digit hbase fuel (n / base) (done ++ [digit (n % base)]) dest
        (by omega) (by omega)
      rw [List.length_append, List.length_singleton, List.append_assoc, List.append_assoc,
        List.singleton_append, List.singleton_append] at hnext
      rw [if_pos hdiv, hnext, List.reverse_append, List.reverse_singleton, List.singleton_append,
        List.cons_append, List.drop_succ_cons]
      have hindex : done.length + 1 + (numberText base digit (n / base)).length
          = done.length + ((numberText base digit (n / base)).length + 1) := by omega
      rw [hindex]

/-- **`itoa` and `itoa_hex`** store the text of the number with its terminator, in an array that is
    longer than the text. -/
theorem printNumber_eq (hbase : 1 < base.toNat) {n : UInt32} {s : List UInt8}
    (hzero : 0 ∉ numberText base digit n) (hroom : (numberText base digit n).length < s.length) :
    printNumber base digit n s = some (numberText base digit n
      ++ 0 :: s.drop ((numberText base digit n).length + 1)) := by
  have hloop := digitLoop_eq digit hbase s.length n [] s (by omega) (Nat.le_refl _)
  rw [List.nil_append, List.nil_append, List.length_nil, Nat.zero_add] at hloop
  have hrest : s.drop (numberText base digit n).length
      = s[(numberText base digit n).length] :: s.drop ((numberText base digit n).length + 1) :=
    List.drop_eq_getElem_cons hroom
  have hstore := store_border (numberText base digit n).reverse
    (s.drop ((numberText base digit n).length + 1)) s[(numberText base digit n).length] 0
  rw [List.length_reverse] at hstore
  have hreverse : reverse ((numberText base digit n).reverse
        ++ 0 :: s.drop ((numberText base digit n).length + 1))
      = some ((numberText base digit n).reverse.reverse
        ++ 0 :: s.drop ((numberText base digit n).length + 1)) :=
    reverse_eq fun hmem => hzero (List.mem_reverse.mp hmem)
  rw [List.reverse_reverse] at hreverse
  rw [printNumber, hloop, hrest]
  simp only [Option.bind_eq_bind, Option.bind_some, hstore]
  exact hreverse

end Digits

/-! ## Base 10 and base 16 -/

/-- A way to store numbers as text: what it stores can be read again, has no leading zero, is not
    longer than `width`, and ends in a terminator behind which nothing is written. -/
def PrintsNumbers (base width : Nat) (read : UInt8 → Option Nat)
    (print : UInt32 → List UInt8 → Option (List UInt8)) (text : UInt32 → List UInt8) : Prop :=
  ∀ n, 1 ≤ (text n).length ∧ (text n).length ≤ width ∧ parse base read (text n) = some n.toNat ∧
    ((text n).head? = some '0'.toUInt8 → n = 0 ∧ (text n).length = 1) ∧
    ∀ s, (text n).length < s.length →
      print n s = some (text n ++ 0 :: s.drop ((text n).length + 1))

/-- Two numbers with one text are one number. -/
theorem PrintsNumbers.injective {base width : Nat} {read : UInt8 → Option Nat}
    {print : UInt32 → List UInt8 → Option (List UInt8)} {text : UInt32 → List UInt8}
    (h : PrintsNumbers base width read print text) : Function.Injective text := by
  intro m n heq
  obtain ⟨-, -, hm, -⟩ := h m
  obtain ⟨-, -, hn, -⟩ := h n
  rw [heq, hn] at hm
  exact (UInt32.toNat_inj.mp (Option.some.inj hm)).symm

theorem printsNumbers (base : UInt32) {width : Nat} {digit : UInt32 → UInt8}
    {read : UInt8 → Option Nat} (hbase : 1 < base.toNat) (hwidth : 1 ≤ width)
    (hfits : 2 ^ 32 ≤ base.toNat ^ width)
    (hread : Reads base.toNat (fun d => digit (UInt32.ofNat d)) read)
    (hnul : read 0 = none) (hzero : read '0'.toUInt8 = some 0) :
    PrintsNumbers base.toNat width read (printNumber base digit) (numberText base digit) := by
  intro n
  have hlt : n.toNat < base.toNat ^ width := Nat.lt_of_lt_of_le n.toNat_lt hfits
  refine ⟨?_, ?_, parse_numeral hbase hread n.toNat, fun hhead => ?_, fun s hs => ?_⟩
  · rw [numberText, List.length_map]
    exact length_numeral_pos base.toNat n.toNat
  · rw [numberText, List.length_map]
    exact length_numeral_le hbase hwidth hlt
  · -- the character '0' is the digit 0
    obtain ⟨d, digits, hdigits⟩ := List.exists_cons_of_ne_nil
      (numeral_ne_nil base.toNat n.toNat)
    rw [numberText, hdigits, List.map_cons, List.head?_cons] at hhead
    have hd : read (digit (UInt32.ofNat d)) = some d :=
      hread d (lt_of_mem_numeral hbase (by rw [hdigits]; exact List.mem_cons_self))
    rw [Option.some.inj hhead, hzero] at hd
    have hfirst : (numeral base.toNat n.toNat).head? = some 0 := by
      rw [hdigits, List.head?_cons, Option.some.inj hd]
    have hn := head?_numeral hfirst
    refine ⟨UInt32.toNat_inj.mp hn, ?_⟩
    rw [numberText, List.length_map, hn, numeral_of_lt (Nat.lt_of_succ_lt hbase)]
    rfl
  · -- the terminator is no digit
    refine printNumber_eq hbase (fun hmem => ?_) hs
    obtain ⟨d, hd, heq⟩ := List.mem_map.mp hmem
    have hnone : read (digit (UInt32.ofNat d)) = some d := hread d (lt_of_mem_numeral hbase hd)
    rw [heq, hnul] at hnone
    nomatch hnone

theorem reads_decimal : Reads 10 (fun d => decimalDigit (UInt32.ofNat d)) readDecimal := by
  unfold Reads
  decide

theorem reads_hex : Reads 16 (fun d => hexDigit (UInt32.ofNat d)) readHex := by
  unfold Reads
  decide

/-- **Numbers as text.**  `itoa` stores a number in base 10 with at most ten characters from '0' to
    '9', and `itoa_hex` in base 16 with at most eight characters from '0' to '9' and from 'A' to
    'F': the text can be read again, begins with a zero only for zero, and nothing is written
    behind its terminator.  Distinct numbers have distinct texts. -/
theorem itoa_prints_numbers :
    (∃ text, PrintsNumbers 10 10 readDecimal itoa text ∧ Function.Injective text) ∧
    (∃ text, PrintsNumbers 16 8 readHex itoaHex text ∧ Function.Injective text) := by
  have hdecimal : PrintsNumbers 10 10 readDecimal itoa (numberText 10 decimalDigit) :=
    printsNumbers 10 (by decide) (by decide) (by decide) reads_decimal rfl rfl
  have hhex : PrintsNumbers 16 8 readHex itoaHex (numberText 16 hexDigit) :=
    printsNumbers 16 (by decide) (by decide) (by decide) reads_hex rfl rfl
  exact ⟨⟨_, hdecimal, hdecimal.injective⟩, ⟨_, hhex, hhex.injective⟩⟩

end MyOs.Libraries
