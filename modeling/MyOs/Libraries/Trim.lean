/-
  `trim_to_len`.

  The loop has no condition: it stores a terminator at the end of the string, measures the string
  again, and goes on one byte before until the string is short enough.

  1. **Program**: `trimToLen`, with the index of every store.  `i` is an `int`, so a length from `2^31`
     on would make it negative.
  2. **The loop** (`trimLoop_eq`): the store at `str[i]` is at the end of the string in the first turn,
     and at its last character in every other.  Behind it the string is `i` long in any case, so
     the loop stops exactly at `i = len`.
  3. **What a call leaves** (`trimToLen_eq`, `trimToLen_again`), and what it does not touch
     (`trimToLen_stores`, `trimToLen_stores_bounds`).
-/
import Mathlib.Algebra.Group.Nat.Defs
import MyOs.Libraries.Strings

namespace MyOs.Libraries

/-! ## The program -/

/-- What a call of `trim_to_len` does: the bytes it leaves, the indices of its stores in their order,
    and its result. -/
structure Trimmed where
  str : List UInt8
  stores : List Nat
  result : Int
deriving DecidableEq, Repr

/-- The conversion of a `size_t` to an `int`. -/
def toInt (n : Nat) : Int := Int.bmod n (2 ^ 32)

/-- `str[i] = '\0'`, for an `int i`. -/
def storeNul (str : List UInt8) (i : Int) : Option (List UInt8) :=
  if 0 ≤ i then store str i.toNat 0 else none

/-- The loop of `trim_to_len`, from `str[i]` on, behind the `stores` it has already made. -/
def trimLoop (len : UInt32) : Nat → List UInt8 → Int → List Nat → Option (List UInt8 × List Nat)
  | 0, _, _, _ => none
  | fuel + 1, str, i, stores => do
    let str' ← storeNul str i
    let length ← strlen str'
    if length ≤ len.toNat then some (str', stores ++ [i.toNat])
    else trimLoop len fuel str' (i - 1) (stores ++ [i.toNat])

/-- `trim_to_len`. -/
def trimToLen (str : List UInt8) (len : UInt32) : Option Trimmed := do
  let length ← strlen str
  if length ≤ len.toNat then some ⟨str, [], 1⟩
  else
    let (str', stores) ← trimLoop len str.length str (toInt length) []
    some ⟨str', stores, 0⟩

/-! ## The loop -/

variable {w rest : List UInt8}

theorem toInt_eq {n : Nat} (hn : n < 2 ^ 31) : toInt n = n :=
  Int.bmod_eq_of_le (by omega) (by omega)

/-- A store at the end of a string, and the length behind it. -/
theorem storeNul_border (w rest : List UInt8) (c : UInt8) :
    storeNul (w ++ c :: rest) w.length = some (w ++ 0 :: rest) := by
  rw [storeNul, if_pos (Int.natCast_nonneg _), Int.toNat_natCast, store_border]

/-- The loop, at the end of a string that is too long by `d` characters: the last store is at `len`,
    and everything from there on is zero up to where the loop began. -/
theorem trimLoop_eq (len : UInt32) : ∀ (d fuel : Nat) (w tail : List UInt8) (c : UInt8)
    (stores : List Nat), 0 ∉ w → w.length = len.toNat + d → d < fuel →
    trimLoop len fuel (w ++ c :: tail) w.length stores
      = some (w.take len.toNat ++ (List.replicate (d + 1) 0 ++ tail),
          stores ++ (List.range' len.toNat (d + 1)).reverse)
  | d, 0, _, _, _, _, _, _, hfuel => absurd hfuel (Nat.not_lt_zero d)
  | 0, fuel + 1, w, tail, c, stores, hw, hlen, _ => by
    rw [trimLoop, storeNul_border]
    simp only [Option.bind_eq_bind, Option.bind_some, strlen_terminated hw, Int.toNat_natCast]
    rw [if_pos (by omega), List.take_of_length_le (by omega), hlen]
    rfl
  | d + 1, fuel + 1, w, tail, c, stores, hw, hlen, hfuel => by
    -- the last character of the string is what the next turn overwrites
    rcases List.eq_nil_or_concat w with rfl | ⟨w', x, rfl⟩
    · rw [List.length_nil] at hlen
      omega
    rw [List.concat_eq_append] at hw hlen ⊢
    have hlen' : w'.length = len.toNat + d := by
      rw [List.length_append, List.length_singleton] at hlen
      omega
    have hw' : 0 ∉ w' := fun hmem => hw (List.mem_append_left _ hmem)
    have hprev : ((w' ++ [x]).length : Int) - 1 = w'.length := by
      rw [List.length_append, List.length_singleton]
      omega
    have hnext := trimLoop_eq len d fuel w' (0 :: tail) x
      (stores ++ [(w' ++ [x]).length]) hw' hlen' (Nat.lt_of_succ_lt_succ hfuel)
    have htake : (w' ++ [x]).take len.toNat = w'.take len.toNat :=
      List.take_append_of_le_length (by omega)
    have hzeros : List.replicate (d + 2) (0 : UInt8) ++ tail
        = List.replicate (d + 1) 0 ++ 0 :: tail := by
      rw [List.replicate_succ', List.append_assoc, List.singleton_append]
    have hstores : (List.range' len.toNat (d + 2)).reverse
        = (w' ++ [x]).length :: (List.range' len.toNat (d + 1)).reverse := by
      rw [List.range'_1_concat, List.reverse_append, List.reverse_singleton, hlen]
      rfl
    rw [trimLoop, storeNul_border]
    simp only [Option.bind_eq_bind, Option.bind_some, strlen_terminated hw, Int.toNat_natCast]
    rw [if_neg (by omega), hprev, List.append_assoc w' [x], List.singleton_append, hnext, htake,
      hzeros, hstores, List.append_assoc stores]
    rfl

/-- **`trim_to_len`** returns 1 without a store when the string is short enough.  Otherwise it stores a
    terminator at every index from the end of the string down to `len`. -/
theorem trimToLen_eq (h : 0 ∉ w) (hw : w.length < 2 ^ 31) (len : UInt32) :
    trimToLen (w ++ 0 :: rest) len = some (
      if w.length ≤ len.toNat then ⟨w ++ 0 :: rest, [], 1⟩
      else ⟨w.take len.toNat ++ (List.replicate (w.length - len.toNat + 1) 0 ++ rest),
        (List.range' len.toNat (w.length - len.toNat + 1)).reverse, 0⟩) := by
  rw [trimToLen, strlen_terminated h]
  simp only [Option.bind_eq_bind, Option.bind_some]
  by_cases hle : w.length ≤ len.toNat
  · rw [if_pos hle, if_pos hle]
  · have hloop := trimLoop_eq len (w.length - len.toNat) (w ++ 0 :: rest).length w rest 0 [] h
      (by omega) (by rw [List.length_append, List.length_cons]; omega)
    rw [if_neg hle, if_neg hle, toInt_eq hw, hloop]
    rfl

/-- What is left is a prefix of the string. -/
theorem trimToLen_holds {t : Trimmed} (h : 0 ∉ w) (hw : w.length < 2 ^ 31) {len : UInt32}
    (ht : trimToLen (w ++ 0 :: rest) len = some t) :
    Holds t.str (w.take (min w.length len.toNat)) := by
  rw [trimToLen_eq h hw] at ht
  obtain rfl := Option.some.inj ht
  by_cases hle : w.length ≤ len.toNat
  · rw [if_pos hle, Nat.min_eq_left hle, List.take_length]
    exact ⟨h, rest, rfl⟩
  · rw [if_neg hle, Nat.min_eq_right (Nat.le_of_not_le hle), List.replicate_succ,
      List.cons_append]
    exact ⟨fun hmem => h (List.mem_of_mem_take hmem), _, rfl⟩

/-- A second call finds nothing to do. -/
theorem trimToLen_again {t : Trimmed} (h : 0 ∉ w) (hw : w.length < 2 ^ 31) {len : UInt32}
    (ht : trimToLen (w ++ 0 :: rest) len = some t) : trimToLen t.str len = some ⟨t.str, [], 1⟩ := by
  obtain ⟨hchars, rest', hstr⟩ := trimToLen_holds h hw ht
  have hlength : (w.take (min w.length len.toNat)).length = min w.length len.toNat := by
    rw [List.length_take, Nat.min_eq_left (Nat.min_le_left _ _)]
  rw [hstr, trimToLen_eq hchars (by omega), if_pos (by omega)]

/-! ## The stores -/

/-- The stores a loop makes, and the bytes behind them. -/
theorem trimLoop_stores (len : UInt32) : ∀ {fuel : Nat} {str str' : List UInt8} {i : Int}
    {stores stores' : List Nat}, trimLoop len fuel str i stores = some (str', stores') →
    ∃ made, stores' = stores ++ made ∧ str' = made.foldl (fun s i => s.set i 0) str
  | fuel + 1, str, str', i, stores, stores', h => by
    rw [trimLoop] at h
    obtain ⟨str₁, hstore, h⟩ := Option.bind_eq_some_iff.mp h
    obtain ⟨n, -, h⟩ := Option.bind_eq_some_iff.mp h
    have hset : str₁ = str.set i.toNat 0 := by
      unfold storeNul store at hstore
      split at hstore
      · split at hstore
        · exact (Option.some.inj hstore).symm
        · nomatch hstore
      · nomatch hstore
    split at h
    · obtain ⟨rfl, rfl⟩ := Prod.mk.inj (Option.some.inj h)
      exact ⟨[i.toNat], rfl, hset⟩
    · obtain ⟨made, hmade, hstr⟩ := trimLoop_stores len h
      refine ⟨i.toNat :: made, ?_, ?_⟩
      · rw [hmade, List.append_assoc]
        rfl
      · rw [hstr, hset]
        rfl

/-- **The record is complete**: what a call leaves is what its stores make of the array. -/
theorem trimToLen_stores {str : List UInt8} {len : UInt32} {t : Trimmed}
    (h : trimToLen str len = some t) : t.str = t.stores.foldl (fun s i => s.set i 0) str := by
  rw [trimToLen] at h
  obtain ⟨n, -, h⟩ := Option.bind_eq_some_iff.mp h
  split at h
  · obtain rfl := Option.some.inj h
    rfl
  · obtain ⟨⟨str', stores⟩, hloop, h⟩ := Option.bind_eq_some_iff.mp h
    obtain rfl := Option.some.inj h
    obtain ⟨made, hmade, hstr⟩ := trimLoop_stores len hloop
    rw [List.nil_append] at hmade
    rw [hmade]
    exact hstr

/-- A byte that no store hits stays. -/
theorem getElem?_foldl_set {i : Nat} : ∀ {is : List Nat} (str : List UInt8), i ∉ is →
    (is.foldl (fun s i => s.set i 0) str)[i]? = str[i]?
  | [], _, _ => rfl
  | k :: is, str, h => by
    obtain ⟨hne, hmem⟩ := List.ne_and_not_mem_of_not_mem_cons h
    rw [List.foldl_cons, getElem?_foldl_set _ hmem, List.getElem?_set_ne (Ne.symm hne)]

/-- The stores of a call lie between `len` and the terminator. -/
theorem trimToLen_stores_bounds {t : Trimmed} (h : 0 ∉ w) (hw : w.length < 2 ^ 31) {len : UInt32}
    (ht : trimToLen (w ++ 0 :: rest) len = some t) :
    ∀ i ∈ t.stores, len.toNat ≤ i ∧ i ≤ w.length := by
  rw [trimToLen_eq h hw] at ht
  obtain rfl := Option.some.inj ht
  intro i hi
  split at hi
  · nomatch hi
  · rw [List.mem_reverse, List.mem_range'_1] at hi
    omega

/-- **`trim_to_len`** ends; what is left is the prefix of length `min(strlen(str), len)`, no byte
    before `len` or behind the terminator is stored to, and the result tells whether the string was
    short enough. -/
theorem trimToLen_trims (h : 0 ∉ w) (hw : w.length < 2 ^ 31) (len : UInt32) :
    ∃ t, trimToLen (w ++ 0 :: rest) len = some t ∧
      Holds t.str (w.take (min w.length len.toNat)) ∧
      (∀ i ∈ t.stores, len.toNat ≤ i ∧ i ≤ w.length) ∧
      (∀ i, i < len.toNat ∨ w.length < i → t.str[i]? = (w ++ 0 :: rest)[i]?) ∧
      (t.result = 1 ↔ w.length ≤ len.toNat) := by
  obtain ⟨t, ht⟩ : ∃ t, trimToLen (w ++ 0 :: rest) len = some t := ⟨_, trimToLen_eq h hw len⟩
  have hbounds := trimToLen_stores_bounds h hw ht
  refine ⟨t, ht, trimToLen_holds h hw ht, hbounds, fun i hi => ?_, ?_⟩
  · rw [trimToLen_stores ht]
    exact getElem?_foldl_set _ fun hmem => by have := hbounds i hmem; omega
  · rw [trimToLen_eq h hw] at ht
    obtain rfl := Option.some.inj ht
    by_cases hle : w.length ≤ len.toNat
    · rw [if_pos hle]
      exact iff_of_true rfl hle
    · rw [if_neg hle]
      exact iff_of_false Int.zero_ne_one hle

/-- Four characters, cut to two. -/
theorem trimToLen_trims_four :
    ∃ t, trimToLen [76, 73, 83, 84, 0, 7] 2 = some t ∧ Holds t.str [76, 73] ∧
      t.str[5]? = some 7 ∧ t.result ≠ 1 := by
  obtain ⟨t, ht, hholds, -, hkept, hresult⟩ :=
    @trimToLen_trims [76, 73, 83, 84] [7] (by decide) (by decide) 2
  exact ⟨t, ht, hholds, hkept 5 (.inr (by decide)), fun hone => absurd (hresult.mp hone) (by decide)⟩

end MyOs.Libraries
