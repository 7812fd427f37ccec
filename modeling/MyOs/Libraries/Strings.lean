/-
  C strings: the functions of `string.c` that the shell and the file system use.

  An array is the list of its bytes, and a `char*` into it an index.  A read or a store outside
  the array has no result (`none`); neither has a loop that runs out of its fuel, which is the
  length of the array.  `char` is signed here, but no negative value is equal to a delimiter
  or lies between two letters, so a byte is a `UInt8`.

  All lemmas are about an array `w ++ 0 :: rest` with no zero in `w`: a string `w` with its
  terminator, and what lies behind it.
-/
import Mathlib.Data.List.Basic

namespace MyOs.Libraries

/-! ## The program -/

/-- `s[i] = c`. -/
def store (s : List UInt8) (i : Nat) (c : UInt8) : Option (List UInt8) :=
  if i < s.length then some (s.set i c) else none

/-- `strlen`. -/
def strlen : List UInt8 → Option Nat
  | [] => none
  | c :: str => if c ≠ 0 then (strlen str).map (· + 1) else some 0

/-- `s[i] >= 'A' && s[i] <= 'Z'`. -/
def isUpper (c : UInt8) : Bool := 'A'.toUInt8 ≤ c && c ≤ 'Z'.toUInt8

/-- `s[i] >= 'a' && s[i] <= 'z'`. -/
def isLower (c : UInt8) : Bool := 'a'.toUInt8 ≤ c && c ≤ 'z'.toUInt8

/-- The loop of `to_lower_case` and `to_upper_case`, from `s[i]` on: the characters that pass a test are
    changed. -/
def caseLoop (test : UInt8 → Bool) (change : UInt8 → UInt8) :
    Nat → List UInt8 → Nat → Option (List UInt8)
  | 0, _, _ => none
  | fuel + 1, s, i => do
    let len ← strlen s
    if i < len then
      let c ← s[i]?
      let s' ← if test c then store s i (change c) else some s
      caseLoop test change fuel s' (i + 1)
    else some s

/-- `to_lower_case`. -/
def toLowerCase (s : List UInt8) : Option (List UInt8) := caseLoop isUpper (· + 32) s.length s 0

/-- `to_upper_case`. -/
def toUpperCase (s : List UInt8) : Option (List UInt8) := caseLoop isLower (· - 32) s.length s 0

/-- What the condition `i < n && src[i] != '\0'` looks at: zero at the bound, where `src` is not
    read.  The string need not be an array of its own. -/
def strncpyRead (src : Nat → Option UInt8) (n i : Nat) : Option UInt8 :=
  if i < n then src i else some 0

/-- The loop of `strncpy`, from `dest[i]` on. -/
def strncpyLoop (src : Nat → Option UInt8) (n : Nat) :
    Nat → List UInt8 → Nat → Option (List UInt8)
  | 0, _, _ => none
  | fuel + 1, dest, i => do
    let c ← strncpyRead src n i
    if c ≠ 0 then
      let dest' ← store dest i c
      strncpyLoop src n fuel dest' (i + 1)
    else store dest i 0

/-- `strncpy`: unlike that of the standard library it always stores a terminator. -/
def strncpy (dest : List UInt8) (src : Nat → Option UInt8) (n : Nat) : Option (List UInt8) :=
  strncpyLoop src n (n + 1) dest 0

/-- The loop of `string_equals_len`, over `n` more characters from `string1[i]` on. -/
def stringEqualsLoop (string1 : Nat → Option UInt8) (string2 : List UInt8) :
    Nat → Nat → Option Bool
  | 0, _ => some true
  | n + 1, i => do
    let c1 ← string1 i
    let c2 ← string2[i]?
    if c1 ≠ c2 then some false else stringEqualsLoop string1 string2 n (i + 1)

/-- `string_equals_len`. -/
def stringEqualsLen (string1 : Nat → Option UInt8) (string2 : List UInt8) (len : Nat) :
    Option Bool := do
  let length2 ← strlen string2
  if length2 ≠ len then some false else stringEqualsLoop string1 string2 len 0

/-- The loop of `strsplit`, from `str[i]` on, behind the `parts` it already has. -/
def strsplitLoop (delim : UInt8) (maxParts : Nat) :
    Nat → List UInt8 → Nat → List Nat → Option (List UInt8 × List Nat)
  | 0, _, _, _ => none
  | fuel + 1, str, i, parts => do
    let c ← str[i]?
    if c ≠ 0 ∧ parts.length < maxParts then
      if c = delim then
        let str' ← store str i 0
        let next ← str'[i + 1]?
        strsplitLoop delim maxParts fuel str' (i + 1)
          (if next ≠ 0 ∧ next ≠ delim then parts ++ [i + 1] else parts)
      else strsplitLoop delim maxParts fuel str (i + 1) parts
    else some (str, parts)

/-- `strsplit`: what it leaves of the string, and the parts, as indices into it. -/
def strsplit (str : List UInt8) (delim : UInt8) (maxParts : Nat) :
    Option (List UInt8 × List Nat) := do
  let first ← str[0]?
  let i := if first = delim then 1 else 0
  let c ← str[i]?
  strsplitLoop delim maxParts str.length str i (if c ≠ 0 then [i] else [])

/-! ## Strings and their terminators -/

/-- The string in an array: what comes before the first zero. -/
def cString (s : List UInt8) : List UInt8 := s.takeWhile (· ≠ 0)

variable {w rest : List UInt8}

theorem cString_append (h : 0 ∉ w) : cString (w ++ rest) = w ++ cString rest := by
  refine List.takeWhile_append_of_pos fun c hc => decide_eq_true ?_
  rintro rfl
  exact h hc

theorem cString_of_not_mem (h : 0 ∉ w) : cString w = w := by
  have happend : cString (w ++ []) = w ++ cString [] := cString_append h
  rwa [List.append_nil, cString, cString, List.takeWhile_nil, List.append_nil] at happend

theorem cString_cons {c : UInt8} (h : c ≠ 0) : cString (c :: w) = c :: cString w :=
  List.takeWhile_cons_of_pos (decide_eq_true h)

theorem cString_terminated (h : 0 ∉ w) : cString (w ++ 0 :: rest) = w := by
  rw [cString_append h]
  exact List.append_nil w

/-- An array holds a string: its characters, and a terminator behind them. -/
def Holds (a c : List UInt8) : Prop := 0 ∉ c ∧ ∃ rest, a = c ++ 0 :: rest

/-- An array with a terminator somewhere holds what comes before the first one. -/
theorem holds_cString (a tail : List UInt8) : Holds (a ++ 0 :: tail) (cString a) := by
  induction a with
  | nil => exact ⟨List.not_mem_nil, tail, rfl⟩
  | cons c a ih =>
    by_cases hc : c = 0
    · rw [hc]
      exact ⟨List.not_mem_nil, a ++ 0 :: tail, rfl⟩
    · obtain ⟨hzero, rest, ha⟩ := ih
      rw [cString_cons hc, List.cons_append, ha]
      exact ⟨List.not_mem_cons_of_ne_of_not_mem (Ne.symm hc) hzero, rest, rfl⟩

/-- `strlen` is the length of the string. -/
theorem strlen_terminated (h : 0 ∉ w) : strlen (w ++ 0 :: rest) = some w.length := by
  induction w with
  | nil => rfl
  | cons c w ih =>
    obtain ⟨hc, hw⟩ := List.ne_and_not_mem_of_not_mem_cons h
    rw [List.cons_append, strlen, if_pos hc.symm, ih hw]
    rfl

theorem strlen_eq_none (h : 0 ∉ w) : strlen w = none := by
  induction w with
  | nil => rfl
  | cons c w ih =>
    obtain ⟨hc, hw⟩ := List.ne_and_not_mem_of_not_mem_cons h
    rw [strlen, if_pos hc.symm, ih hw]
    rfl

/-- The length of a string is the index of the first zero. -/
theorem strlen_eq_some_iff {s : List UInt8} : ∀ {n : Nat},
    strlen s = some n ↔ s[n]? = some 0 ∧ ∀ k, k < n → s[k]? ≠ some 0 := by
  induction s with
  | nil =>
    intro n
    exact iff_of_false (fun h => nomatch h) fun h => nomatch h.1
  | cons c s ih =>
    intro n
    rw [strlen]
    by_cases hc : c = 0
    · -- the terminator is here
      rw [if_neg (not_not.mpr hc), Option.some.injEq, hc]
      constructor
      · rintro rfl
        exact ⟨rfl, fun k hk => absurd hk (Nat.not_lt_zero k)⟩
      · rintro ⟨-, hbefore⟩
        by_contra hne
        exact hbefore 0 (Nat.pos_of_ne_zero fun h => hne h.symm) rfl
    · -- it is further behind, by one less than from here
      rw [if_pos hc]
      cases n with
      | zero =>
        refine iff_of_false (fun h => ?_) fun h => hc (Option.some.inj h.1)
        obtain ⟨m, -, hm⟩ := Option.map_eq_some_iff.mp h
        nomatch hm
      | succ n =>
        have hmap : (strlen s).map (· + 1) = some (n + 1) ↔ strlen s = some n := by
          rw [Option.map_eq_some_iff]
          simp only [Nat.add_right_cancel_iff, exists_eq_right]
        rw [hmap, ih, List.getElem?_cons_succ]
        refine and_congr_right fun _ => ⟨fun h k hk => ?_, fun h k hk => ?_⟩
        · cases k with
          | zero => exact fun hzero => hc (Option.some.inj hzero)
          | succ k => exact h k (Nat.lt_of_succ_lt_succ hk)
        · exact h (k + 1) (Nat.succ_lt_succ hk)

/-! ## Bytes at the border of two lists -/

theorem getElem?_border {c : UInt8} : (w ++ c :: rest)[w.length]? = some c := by
  rw [List.getElem?_append_right (Nat.le_refl _), Nat.sub_self]
  rfl

theorem store_border (w rest : List UInt8) (c x : UInt8) :
    store (w ++ c :: rest) w.length x = some (w ++ x :: rest) := by
  have hlt : w.length < (w ++ c :: rest).length := by
    rw [List.length_append, List.length_cons]
    omega
  rw [store, if_pos hlt, List.set_append_right _ _ (Nat.le_refl _), Nat.sub_self]
  rfl

/-- The array is longer than what is left of the string. -/
theorem length_lt_border (done todo rest : List UInt8) :
    todo.length < (done ++ (todo ++ 0 :: rest)).length := by
  rw [List.length_append, List.length_append, List.length_cons]
  omega

/-! ## Upper and lower case -/

/-- What the loop makes of one character. -/
def recase (test : UInt8 → Bool) (change : UInt8 → UInt8) (c : UInt8) : UInt8 :=
  if test c then change c else c

/-- What `to_lower_case` makes of one character. -/
def lower : UInt8 → UInt8 := recase isUpper (· + 32)

/-- What `to_upper_case` makes of one character. -/
def upper : UInt8 → UInt8 := recase isLower (· - 32)

/-- No character becomes a terminator. -/
theorem lower_ne_zero {c : UInt8} (h : c ≠ 0) : lower c ≠ 0 := by
  unfold lower recase
  split
  · rename_i hupper
    rw [isUpper, Bool.and_eq_true, decide_eq_true_eq, decide_eq_true_eq, UInt8.le_iff_toNat_le,
      UInt8.le_iff_toNat_le] at hupper
    have hA : 'A'.toUInt8.toNat = 65 := rfl
    have hZ : 'Z'.toUInt8.toNat = 90 := rfl
    intro hzero
    have hsum := congrArg UInt8.toNat hzero
    rw [UInt8.toNat_add, UInt8.toNat_zero] at hsum
    simp only [UInt8.reduceToNat] at hsum
    omega
  · exact h

/-- What `to_upper_case` changes becomes a capital letter. -/
theorem upper_eq_or (c : UInt8) : upper c = c ∨ (65 ≤ (upper c).toNat ∧ (upper c).toNat ≤ 90) := by
  unfold upper recase
  split
  · rename_i hlower
    rw [isLower, Bool.and_eq_true, decide_eq_true_eq, decide_eq_true_eq, UInt8.le_iff_toNat_le,
      UInt8.le_iff_toNat_le] at hlower
    have ha : 'a'.toUInt8.toNat = 97 := rfl
    have hz : 'z'.toUInt8.toNat = 122 := rfl
    rw [UInt8.toNat_sub]
    simp only [UInt8.reduceToNat]
    omega
  · exact .inl rfl

theorem upper_ne_zero {c : UInt8} (h : c ≠ 0) : upper c ≠ 0 := by
  intro hzero
  rcases upper_eq_or c with hsame | ⟨hge, -⟩
  · exact h (hsame.symm.trans hzero)
  · rw [hzero] at hge
    exact absurd hge (by decide)

theorem zero_not_mem_map {f : UInt8 → UInt8} (hf : ∀ {c}, c ≠ 0 → f c ≠ 0) (h : 0 ∉ w) :
    0 ∉ w.map f := by
  intro hmem
  obtain ⟨c, hc, hzero⟩ := List.mem_map.mp hmem
  refine hf ?_ hzero
  rintro rfl
  exact h hc

theorem zero_not_mem_map_lower (h : 0 ∉ w) : 0 ∉ w.map lower := zero_not_mem_map lower_ne_zero h

/-- The loop, with the characters before `s[i]` already changed. -/
theorem caseLoop_eq {test : UInt8 → Bool} {change : UInt8 → UInt8}
    (hne : ∀ {c}, c ≠ 0 → recase test change c ≠ 0) {todo : List UInt8} :
    ∀ (fuel : Nat) (done : List UInt8), 0 ∉ done → 0 ∉ todo → todo.length < fuel →
    caseLoop test change fuel (done ++ (todo ++ 0 :: rest)) done.length
      = some (done ++ (todo.map (recase test change) ++ 0 :: rest)) := by
  induction todo with
  | nil =>
    intro fuel done hdone _ hfuel
    obtain ⟨fuel, rfl⟩ := Nat.exists_eq_add_of_lt hfuel
    rw [caseLoop, List.nil_append, strlen_terminated hdone]
    show (if done.length < done.length then _ else some _) = _
    rw [if_neg (Nat.lt_irrefl _)]
    rfl
  | cons c todo ih =>
    intro fuel done hdone htodo hfuel
    obtain ⟨hc, htodo'⟩ := List.ne_and_not_mem_of_not_mem_cons htodo
    rw [List.length_cons] at hfuel
    obtain ⟨fuel, rfl⟩ : ∃ n, fuel = n + 1 := ⟨fuel - 1, by omega⟩
    -- the bound of the loop is read again in every turn, and no turn has stored a zero
    have hlen : strlen (done ++ c :: (todo ++ 0 :: rest)) = some (done ++ c :: todo).length := by
      rw [← List.cons_append, ← List.append_assoc]
      refine strlen_terminated ?_
      rw [List.mem_append]
      exact fun hmem => hmem.elim hdone htodo
    have hlt : done.length < (done ++ c :: todo).length := by
      rw [List.length_append, List.length_cons]
      omega
    have hchanged : 0 ∉ done ++ [recase test change c] := by
      rw [List.mem_append, List.mem_singleton]
      exact fun hmem => hmem.elim hdone fun heq => hne hc.symm heq.symm
    have hnext := ih fuel _ hchanged htodo' (by omega)
    rw [List.length_append, List.length_singleton, List.append_assoc, List.append_assoc] at hnext
    rw [List.cons_append, caseLoop]
    simp only [hlen, Option.bind_eq_bind, Option.bind_some, if_pos hlt, getElem?_border]
    by_cases htest : test c
    · rw [if_pos htest, store_border, Option.bind_some]
      rw [recase, if_pos htest] at hnext
      rw [List.map_cons, recase, if_pos htest]
      exact hnext
    · rw [if_neg htest]
      rw [recase, if_neg htest] at hnext
      rw [List.map_cons, recase, if_neg htest]
      exact hnext

/-- **`to_lower_case`** changes the string, character by character, and nothing behind it. -/
theorem toLowerCase_eq (h : 0 ∉ w) :
    toLowerCase (w ++ 0 :: rest) = some (w.map lower ++ 0 :: rest) :=
  caseLoop_eq lower_ne_zero _ [] List.not_mem_nil h (length_lt_border [] w rest)

/-- Without a terminator it reads on behind the array. -/
theorem toLowerCase_eq_none (h : 0 ∉ w) : toLowerCase w = none := by
  unfold toLowerCase
  cases w.length with
  | zero => rfl
  | succ fuel =>
    rw [caseLoop, strlen_eq_none h]
    rfl

/-- **`to_upper_case`** does the same. -/
theorem toUpperCase_eq (h : 0 ∉ w) :
    toUpperCase (w ++ 0 :: rest) = some (w.map upper ++ 0 :: rest) :=
  caseLoop_eq upper_ne_zero _ [] List.not_mem_nil h (length_lt_border [] w rest)

/-! ## Copying and comparing -/

/-- The loop, with the characters before `dest[i]` already copied: it copies the rest with a
    terminator, or runs out of the array. -/
theorem strncpyLoop_eq {src : Nat → Option UInt8} {n : Nat} {todo : List UInt8} :
    ∀ (fuel : Nat) (done dest : List UInt8), 0 ∉ todo → todo.length < fuel →
    (∀ j, j < todo.length → strncpyRead src n (done.length + j) = todo[j]?) →
    strncpyRead src n (done.length + todo.length) = some 0 →
    strncpyLoop src n fuel (done ++ dest) done.length
      = if todo.length < dest.length then some (done ++ (todo ++ 0 :: dest.drop (todo.length + 1)))
        else none := by
  induction todo with
  | nil =>
    intro fuel done dest _ hfuel _ hend
    obtain ⟨fuel, rfl⟩ := Nat.exists_eq_add_of_lt hfuel
    rw [List.length_nil, Nat.add_zero] at hend
    rw [strncpyLoop, hend]
    cases dest with
    | nil =>
      rw [List.append_nil, if_neg (Nat.lt_irrefl _)]
      exact if_neg (Nat.lt_irrefl _)
    | cons x dest =>
      exact store_border done dest x 0
  | cons c todo ih =>
    intro fuel done dest htodo hfuel hread hend
    obtain ⟨hc, htodo'⟩ := List.ne_and_not_mem_of_not_mem_cons htodo
    rw [List.length_cons] at hfuel hread hend
    obtain ⟨fuel, rfl⟩ : ∃ m, fuel = m + 1 := ⟨fuel - 1, by omega⟩
    -- one character is copied, and the loop goes on behind it
    have hfirst : strncpyRead src n done.length = some c := hread 0 (Nat.zero_lt_succ _)
    rw [strncpyLoop, hfirst]
    simp only [Option.bind_eq_bind, Option.bind_some, if_pos hc.symm]
    cases dest with
    | nil =>
      have hstore : store (done ++ []) done.length c = none := by
        rw [List.append_nil]
        exact if_neg (Nat.lt_irrefl _)
      rw [hstore]
      rfl
    | cons x dest =>
      have hnext := ih fuel (done ++ [c]) dest htodo' (by omega)
        (fun j hj => by
          rw [List.length_append, List.length_singleton, Nat.add_assoc, Nat.add_comm 1]
          exact hread (j + 1) (by omega))
        (by
          rw [List.length_append, List.length_singleton, Nat.add_assoc, Nat.add_comm 1]
          exact hend)
      rw [List.length_append, List.length_singleton, List.append_assoc, List.append_assoc] at hnext
      rw [store_border, Option.bind_some]
      refine hnext.trans ?_
      rw [List.length_cons, List.length_cons, List.drop_succ_cons]
      by_cases hfits : todo.length < dest.length
      · rw [if_pos hfits, if_pos (Nat.succ_lt_succ hfits)]
        rfl
      · rw [if_neg hfits, if_neg fun h => hfits (Nat.lt_of_succ_lt_succ h)]

/-- **`strncpy`** of `n` characters without a zero, from any string. -/
theorem strncpy_chars {src : Nat → Option UInt8} {dest : List UInt8} (h : 0 ∉ w)
    (hread : ∀ j, j < w.length → src j = w[j]?) : strncpy dest src w.length
      = if w.length < dest.length then some (w ++ 0 :: dest.drop (w.length + 1)) else none := by
  refine strncpyLoop_eq _ [] dest h (Nat.lt_succ_self _) (fun j hj => ?_) ?_
  · rw [List.length_nil, Nat.zero_add, strncpyRead, if_pos hj]
    exact hread j hj
  · rw [List.length_nil, Nat.zero_add]
    exact if_neg (Nat.lt_irrefl _)

/-- **`strncpy`** of a whole string: it needs an array that is longer. -/
theorem strncpy_terminated {dest : List UInt8} {n : Nat} (h : 0 ∉ w) :
    strncpy dest ((w ++ 0 :: rest)[·]?) n
      = if (w.take n).length < dest.length then
          some (w.take n ++ 0 :: dest.drop ((w.take n).length + 1))
        else none := by
  have hlength : (w.take n).length = min n w.length := List.length_take
  refine strncpyLoop_eq _ [] dest (fun hmem => h (List.mem_of_mem_take hmem)) (by omega)
    (fun j hj => ?_) ?_
  · rw [List.length_nil, Nat.zero_add, strncpyRead, if_pos (by omega),
      List.getElem?_take_of_lt (by omega), List.getElem?_append_left (by omega)]
  · rw [List.length_nil, Nat.zero_add]
    unfold strncpyRead
    split
    · have hall : (w.take n).length = w.length := by omega
      rw [hall]
      exact getElem?_border
    · rfl

theorem store_length {a a' : List UInt8} {i : Nat} {x : UInt8} (h : store a i x = some a') :
    a'.length = a.length := by
  unfold store at h
  split at h
  · rw [← Option.some.inj h, List.length_set]
  · nomatch h

theorem strncpyLoop_length {src : Nat → Option UInt8} {n : Nat} : ∀ {fuel i : Nat}
    {dest dest' : List UInt8}, strncpyLoop src n fuel dest i = some dest' →
    dest'.length = dest.length
  | fuel + 1, i, dest, dest', h => by
    rw [strncpyLoop] at h
    obtain ⟨c, -, h⟩ := Option.bind_eq_some_iff.mp h
    split at h
    · obtain ⟨dest₁, hstore, h⟩ := Option.bind_eq_some_iff.mp h
      exact (strncpyLoop_length h).trans (store_length hstore)
    · exact store_length h

/-- The loop, inside a longer array, has a result when the string can be read up to its end. -/
theorem strncpyLoop_isSome_iff {src : Nat → Option UInt8} {n : Nat} : ∀ (m i : Nat)
    (dest : List UInt8), i + m = n → n < dest.length →
    ((strncpyLoop src n (m + 1) dest i).isSome ↔ ∀ j, i ≤ j → j < n →
      (∀ k, i ≤ k → k < j → src k ≠ some 0) → (src j).isSome)
  | m, i, dest, hi, hn => by
    have hstore : ∀ x, store dest i x = some (dest.set i x) := fun x => if_pos (by omega)
    rw [strncpyLoop]
    by_cases hend : i < n
    · rw [strncpyRead, if_pos hend]
      cases hc : src i with
      | none =>
        -- the character at `i` is read first
        refine iff_of_false Bool.false_ne_true fun hread => ?_
        have hfirst := hread i (Nat.le_refl i) hend fun k h1 h2 => by omega
        rw [hc] at hfirst
        nomatch hfirst
      | some c =>
        simp only [Option.bind_eq_bind, Option.bind_some, hstore]
        by_cases hzero : c = 0
        · -- the loop ends at the zero, and so do the reads that count
          rw [if_neg (not_not.mpr hzero)]
          refine iff_of_true rfl fun j h1 h2 hbefore => ?_
          rcases Nat.eq_or_lt_of_le h1 with rfl | hlt
          · rw [hc]
            rfl
          · exact absurd (hc.trans (congrArg some hzero)) (hbefore i (Nat.le_refl i) hlt)
        · obtain ⟨m, rfl⟩ : ∃ m', m = m' + 1 := ⟨m - 1, by omega⟩
          rw [if_pos hzero, strncpyLoop_isSome_iff m (i + 1) _ (by omega)
            (by rw [List.length_set]; exact hn)]
          constructor
          · intro hread j h1 h2 hbefore
            rcases Nat.eq_or_lt_of_le h1 with rfl | hlt
            · rw [hc]
              rfl
            · exact hread j hlt h2 fun k h1 h2 => hbefore k (Nat.le_of_succ_le h1) h2
          · intro hread j h1 h2 hbefore
            refine hread j (Nat.le_of_succ_le h1) h2 fun k h1' h2' => ?_
            rcases Nat.eq_or_lt_of_le h1' with rfl | hlt
            · rw [hc]
              exact fun heq => hzero (Option.some.inj heq)
            · exact hbefore k hlt h2'
    · -- behind the last character a zero is stored without a read
      rw [strncpyRead, if_neg hend]
      simp only [Option.bind_eq_bind, Option.bind_some, ne_eq, not_true_eq_false, if_false, hstore]
      exact iff_of_true rfl fun j h1 h2 => by omega

/-- **`strncpy`** of `n` characters into a longer array has a result when the string can be read up to
    its end. -/
theorem strncpy_isSome_iff {src : Nat → Option UInt8} {dest : List UInt8} {n : Nat}
    (hn : n < dest.length) : (strncpy dest src n).isSome ↔
      ∀ j, j < n → (∀ k, k < j → src k ≠ some 0) → (src j).isSome := by
  rw [strncpy, strncpyLoop_isSome_iff n 0 dest (Nat.zero_add n) hn]
  simp only [Nat.zero_le, true_imp_iff]

theorem strncpy_length {src : Nat → Option UInt8} {dest dest' : List UInt8} {n : Nat}
    (h : strncpy dest src n = some dest') : dest'.length = dest.length := strncpyLoop_length h

/-- A string that is short enough fits. -/
theorem strncpy_eq {dest : List UInt8} {n : Nat} (h : 0 ∉ w) (hn : w.length ≤ n)
    (hdest : w.length < dest.length) :
    strncpy dest ((w ++ 0 :: rest)[·]?) n = some (w ++ 0 :: dest.drop (w.length + 1)) := by
  rw [strncpy_terminated h, List.take_of_length_le hn, if_pos hdest]

/-- The loop stops at the first difference, and so may read less than `n` characters. -/
theorem stringEqualsLoop_eq {string1 : Nat → Option UInt8} {string2 : List UInt8} :
    ∀ (n i : Nat) (b : Bool), stringEqualsLoop string1 string2 n i = some b →
      (b = true → ∀ j, i ≤ j → j < i + n → string1 j = string2[j]?) ∧
      (b = false → ∃ j, i ≤ j ∧ j < i + n ∧ ∃ c, string1 j = some c ∧ string2[j]? ≠ some c)
  | 0, i, b, h => by
    obtain rfl := Option.some.inj h
    exact ⟨fun _ j h1 h2 => by omega, fun hfalse => absurd hfalse.symm Bool.false_ne_true⟩
  | n + 1, i, b, h => by
    rw [stringEqualsLoop] at h
    obtain ⟨c1, hc1, h⟩ := Option.bind_eq_some_iff.mp h
    obtain ⟨c2, hc2, h⟩ := Option.bind_eq_some_iff.mp h
    by_cases hne : c1 = c2
    · subst hne
      rw [if_neg (not_not.mpr rfl)] at h
      obtain ⟨htrue, hfalse⟩ := stringEqualsLoop_eq n (i + 1) b h
      constructor
      · intro hb j h1 h2
        rcases Nat.eq_or_lt_of_le h1 with rfl | hlt
        · rw [hc1, hc2]
        · exact htrue hb j hlt (by omega)
      · intro hb
        obtain ⟨j, h1, h2, hdiffer⟩ := hfalse hb
        exact ⟨j, by omega, by omega, hdiffer⟩
    · rw [if_pos hne] at h
      obtain rfl := Option.some.inj h
      refine ⟨fun hb => absurd hb Bool.false_ne_true, fun _ => ?_⟩
      refine ⟨i, Nat.le_refl i, by omega, c1, hc1, fun heq => ?_⟩
      exact hne (Option.some.inj (heq.symm.trans hc2))

/-- It has a result when the first string can be read up to the first difference. -/
theorem stringEqualsLoop_isSome_iff {string1 : Nat → Option UInt8} {string2 : List UInt8} :
    ∀ (n i : Nat), i + n ≤ string2.length →
      ((stringEqualsLoop string1 string2 n i).isSome ↔ ∀ j, i ≤ j → j < i + n →
        (∀ k, i ≤ k → k < j → string1 k = string2[k]?) → (string1 j).isSome)
  | 0, i, _ => iff_of_true rfl fun j h1 h2 => by omega
  | n + 1, i, hlen => by
    have hc2 : string2[i]? = some string2[i] := List.getElem?_eq_getElem (by omega)
    rw [stringEqualsLoop]
    cases hc1 : string1 i with
    | none =>
      -- the character at `i` is read first
      refine iff_of_false Bool.false_ne_true fun hread => ?_
      have hfirst := hread i (Nat.le_refl i) (by omega) fun k h1 h2 => by omega
      rw [hc1] at hfirst
      nomatch hfirst
    | some c =>
      simp only [hc2, Option.bind_eq_bind, Option.bind_some]
      by_cases hne : c = string2[i]
      · rw [if_neg (not_not.mpr hne), stringEqualsLoop_isSome_iff n (i + 1) (by omega)]
        constructor
        · intro hread j h1 h2 hsame
          rcases Nat.eq_or_lt_of_le h1 with rfl | hlt
          · rw [hc1]
            rfl
          · exact hread j hlt (by omega) fun k h1 h2 => hsame k (Nat.le_of_succ_le h1) h2
        · intro hread j h1 h2 hsame
          refine hread j (Nat.le_of_succ_le h1) (by omega) fun k h1' h2' => ?_
          rcases Nat.eq_or_lt_of_le h1' with rfl | hlt
          · rw [hc1, hc2, hne]
          · exact hsame k hlt h2'
      · rw [if_pos hne]
        refine iff_of_true rfl fun j h1 h2 hsame => ?_
        rcases Nat.eq_or_lt_of_le h1 with rfl | hlt
        · rw [hc1]
          rfl
        · -- the comparison has stopped at `i`
          have hequal := hsame i (Nat.le_refl i) hlt
          rw [hc1, hc2] at hequal
          exact absurd (Option.some.inj hequal) hne

/-- **`string_equals_len`** compares the first `len` characters with a whole string. -/
theorem stringEqualsLen_eq {string1 : Nat → Option UInt8} {len : Nat} {b : Bool} (h : 0 ∉ w)
    (hresult : stringEqualsLen string1 (w ++ 0 :: rest) len = some b) :
    (b = true → w.length = len ∧ ∀ j, j < len → string1 j = w[j]?) ∧
    (b = false → w.length = len → ∃ j, j < len ∧ ∃ c, string1 j = some c ∧ w[j]? ≠ some c) := by
  rw [stringEqualsLen, strlen_terminated h] at hresult
  simp only [Option.bind_eq_bind, Option.bind_some] at hresult
  by_cases hlen : w.length = len
  · rw [if_neg (not_not.mpr hlen)] at hresult
    have hin : ∀ j, j < len → (w ++ 0 :: rest)[j]? = w[j]? :=
      fun j hj => List.getElem?_append_left (by omega)
    obtain ⟨htrue, hfalse⟩ := stringEqualsLoop_eq len 0 b hresult
    constructor
    · refine fun hb => ⟨hlen, fun j hj => ?_⟩
      rw [← hin j hj]
      exact htrue hb j (Nat.zero_le j) (by omega)
    · intro hb _
      obtain ⟨j, -, hj, c, hc, hdiffer⟩ := hfalse hb
      have hlt : j < len := by omega
      refine ⟨j, hlt, c, hc, ?_⟩
      rwa [← hin j hlt]
  · rw [if_pos hlen] at hresult
    obtain rfl := Option.some.inj hresult
    exact ⟨fun hb => absurd hb Bool.false_ne_true, fun _ hlen' => absurd hlen' hlen⟩

/-- It has a result when the first string can be read up to the first difference, if the lengths are
    the same. -/
theorem stringEqualsLen_isSome_iff {string1 : Nat → Option UInt8} {len : Nat} (h : 0 ∉ w) :
    (stringEqualsLen string1 (w ++ 0 :: rest) len).isSome ↔ (w.length = len →
      ∀ j, j < len → (∀ k, k < j → string1 k = w[k]?) → (string1 j).isSome) := by
  rw [stringEqualsLen, strlen_terminated h]
  simp only [Option.bind_eq_bind, Option.bind_some]
  by_cases hlen : w.length = len
  · have hin : ∀ k, k < len → (w ++ 0 :: rest)[k]? = w[k]? :=
      fun k hk => List.getElem?_append_left (by omega)
    rw [if_neg (not_not.mpr hlen), stringEqualsLoop_isSome_iff len 0
      (by rw [List.length_append]; omega), Nat.zero_add]
    constructor
    · intro hread _ j hj hsame
      refine hread j (Nat.zero_le j) hj fun k _ hk => ?_
      rw [hin k (Nat.lt_trans hk hj)]
      exact hsame k hk
    · intro hread j _ hj hsame
      refine hread hlen j hj fun k hk => ?_
      rw [← hin k (Nat.lt_trans hk hj)]
      exact hsame k (Nat.zero_le k) hk
  · rw [if_pos hlen]
    exact iff_of_true rfl fun hlen' => absurd hlen' hlen

end MyOs.Libraries
