/-
  `strcpy` and `concat`, and the vendor id that `kernel_startup` puts together with them.

  `concat` begins one byte too late: it copies `src` behind the terminator of `dest`, and stores its
  own terminator at the length of `src` and not at that of the result.

  1. **What `concat` leaves** (`concat_eq`): the string at `dest` never becomes longer, and is cut
     off behind `strlen(src) + 1` characters.
  2. **The vendor id** (`startupVendorId_strings`, `kernelStartupVendorId_eq`): two calls of `concat`
     append nothing.  The kernel gets by because the registers lie behind each other on its stack
     without a terminator: `strcpy` has already copied all three.
-/
import MyOs.Libraries.Strings

namespace MyOs.Libraries

/-! ## The program -/

/-- The loop of `strcpy`. -/
def strcpyLoop (src : List UInt8) : Nat → List UInt8 → Nat → Option (List UInt8)
  | 0, _, _ => none
  | fuel + 1, dest, i => do
    let c ← src[i]?
    if c ≠ 0 then
      let dest' ← store dest i c
      strcpyLoop src fuel dest' (i + 1)
    else store dest i 0

/-- `strcpy`. -/
def strcpy (dest src : List UInt8) : Option (List UInt8) := strcpyLoop src src.length dest 0

/-- What a call of `concat` does: the bytes it leaves at `dest`, and the indices of its stores in their
    order. -/
structure Concatenated where
  dest : List UInt8
  stores : List Nat
  deriving DecidableEq

/-- The loop of `concat`, behind the `stores` it has already made, with the index at which it
    stops. -/
def concatLoop (src : List UInt8) (len : Nat) :
    Nat → List UInt8 → Nat → List Nat → Option (Concatenated × Nat)
  | 0, _, _, _ => none
  | fuel + 1, dest, i, stores => do
    let c ← src[i]?
    if c ≠ 0 then
      let dest' ← store dest (i + len) c
      concatLoop src len fuel dest' (i + 1) (stores ++ [i + len])
    else some (⟨dest, stores⟩, i)

/-- `concat`. -/
def concat (dest src : List UInt8) : Option Concatenated := do
  let n ← strlen dest
  let (copied, i) ← concatLoop src (n + 1) src.length dest 0 []
  let dest' ← store copied.dest (i + 1) 0
  some ⟨dest', copied.stores ++ [i + 1]⟩

/-- How `kernel_startup` fills `vendor_id`, from what its three pointers point at. -/
def startupVendorId (vendorId part1 part2 part3 : List UInt8) : Option (List UInt8) := do
  let v1 ← strcpy vendorId part1
  let v2 ← concat v1 part2
  let v3 ← concat v2.dest part3
  some v3.dest

/-- `kernel_startup`: its pointers are the addresses of its arguments, which lie behind each other
    on the stack. -/
def kernelStartupVendorId (vendorId stack : List UInt8) : Option (List UInt8) :=
  startupVendorId vendorId stack (stack.drop 4) (stack.drop 8)

/-! ## Copying -/

variable {w src rest tail : List UInt8}

theorem strcpyLoop_eq_strncpyLoop (n : Nat) : ∀ (fuel : Nat) (dest : List UInt8) (i : Nat),
    i + fuel ≤ n → strcpyLoop src fuel dest i = strncpyLoop (src[·]?) n fuel dest i
  | 0, _, _, _ => rfl
  | fuel + 1, dest, i, h => by
    have hread : strncpyRead (src[·]?) n i = src[i]? := if_pos (by omega)
    rw [strcpyLoop, strncpyLoop, hread]
    simp only [fun dest' => strcpyLoop_eq_strncpyLoop n fuel dest' (i + 1) (by omega)]

/-- **`strcpy`** of a string into a longer array. -/
theorem strcpy_eq {dest : List UInt8} (h : 0 ∉ src) (hroom : src.length < dest.length) :
    strcpy dest (src ++ 0 :: tail) = some (src ++ 0 :: dest.drop (src.length + 1)) := by
  have hlength : src.length < (src ++ 0 :: tail).length := length_lt_border [] src tail
  have hread : ∀ i, i ≤ src.length →
      strncpyRead ((src ++ 0 :: tail)[·]?) (src ++ 0 :: tail).length i
        = (src ++ 0 :: tail)[i]? := fun i hi => if_pos (by omega)
  rw [strcpy, strcpyLoop_eq_strncpyLoop (src ++ 0 :: tail).length _ _ _ (by omega)]
  refine (strncpyLoop_eq _ [] dest h hlength (fun j hj => ?_) ?_).trans (if_pos hroom)
  · rw [List.length_nil, Nat.zero_add, hread j (by omega), List.getElem?_append_left hj]
  · rw [List.length_nil, Nat.zero_add, hread _ (Nat.le_refl _), getElem?_border]

/-! ## Appending -/

/-- The loop of `concat`, behind the characters it has already copied. -/
theorem concatLoop_eq (tail : List UInt8) {todo : List UInt8} :
    ∀ (fuel : Nat) (done copied dest : List UInt8) (stores : List Nat),
    0 ∉ todo → todo.length < fuel → todo.length ≤ dest.length →
    concatLoop (copied ++ (todo ++ 0 :: tail)) done.length fuel (done ++ (copied ++ dest))
        copied.length stores
      = some (⟨done ++ (copied ++ (todo ++ dest.drop todo.length)),
          stores ++ List.range' (copied.length + done.length) todo.length⟩,
        copied.length + todo.length) := by
  induction todo with
  | nil =>
    intro fuel done copied dest stores _ hfuel _
    obtain ⟨fuel, rfl⟩ := Nat.exists_eq_add_of_lt hfuel
    rw [concatLoop, List.nil_append, getElem?_border, List.length_nil, List.range'_zero,
      List.append_nil]
    rfl
  | cons c todo ih =>
    intro fuel done copied dest stores htodo hfuel hroom
    obtain ⟨hc, htodo'⟩ := List.ne_and_not_mem_of_not_mem_cons htodo
    cases dest with
    | nil => exact absurd hroom (Nat.not_succ_le_zero _)
    | cons x dest =>
      simp only [List.length_cons] at hfuel hroom ⊢
      obtain ⟨fuel, rfl⟩ : ∃ m, fuel = m + 1 := ⟨fuel - 1, by omega⟩
      -- what is stored lies `strlen(dest) + 1` behind what is read
      have hstore : store (done ++ (copied ++ x :: dest)) (copied.length + done.length) c
          = some (done ++ (copied ++ c :: dest)) := by
        have hborder := store_border (done ++ copied) dest x c
        rwa [List.length_append, Nat.add_comm, List.append_assoc, List.append_assoc] at hborder
      have hnext := ih fuel done (copied ++ [c]) dest (stores ++ [copied.length + done.length])
        htodo' (by omega) (by omega)
      rw [List.length_append, List.length_singleton, List.append_assoc, List.append_assoc,
        List.append_assoc, List.append_assoc] at hnext
      rw [concatLoop, List.cons_append, getElem?_border]
      simp only [Option.bind_eq_bind, Option.bind_some, if_pos hc.symm, hstore]
      refine hnext.trans ?_
      rw [Nat.add_assoc copied.length, Nat.add_comm 1, List.drop_succ_cons, List.range'_succ,
        Nat.add_right_comm]
      rfl

/-- The stores of `concat`: `src`, from behind the terminator of `dest` on, and its own zero. -/
def concatStores (w src : List UInt8) : List Nat :=
  List.range' (w.length + 1) src.length ++ [src.length + 1]

/-- `concat` copies `src` behind the terminator of `dest`, and then stores a zero. -/
theorem concat_eq_store (hw : 0 ∉ w) (hsrc : 0 ∉ src) (hroom : src.length ≤ rest.length) :
    concat (w ++ 0 :: rest) (src ++ 0 :: tail)
      = (store (w ++ 0 :: (src ++ rest.drop src.length)) (src.length + 1) 0).map fun dest =>
          ⟨dest, concatStores w src⟩ := by
  have hloop := concatLoop_eq tail (src ++ 0 :: tail).length (w ++ [0]) [] rest [] hsrc
    (length_lt_border [] src tail) hroom
  rw [List.length_append, List.length_singleton, List.append_assoc, List.append_assoc] at hloop
  rw [concat, strlen_terminated hw]
  simp only [Option.bind_eq_bind, Option.bind_some]
  rw [show concatLoop (src ++ 0 :: tail) (w.length + 1) (src ++ 0 :: tail).length (w ++ 0 :: rest)
    0 [] = _ from hloop]
  rw [List.length_nil, Nat.zero_add, Nat.zero_add, Option.bind_some, Option.map_eq_bind]
  rfl

/-- **What `concat` leaves** at `dest`: what was there, cut off behind `strlen(src) + 1`
    characters.  When both strings are empty it needs one byte more than the result. -/
theorem concat_eq (w src rest tail : List UInt8) (hw : 0 ∉ w) (hsrc : 0 ∉ src)
    (hroom : src.length ≤ rest.length)
    (hstore : src.length + 1 < w.length + 1 + rest.length) : ∃ rest',
      (w.take (src.length + 1)).length + rest'.length = w.length + rest.length ∧
      concat (w ++ 0 :: rest) (src ++ 0 :: tail)
        = some ⟨w.take (src.length + 1) ++ 0 :: rest', concatStores w src⟩ := by
  suffices hcut : ∃ rest', (w.take (src.length + 1)).length + rest'.length = w.length + rest.length ∧
      store (w ++ 0 :: (src ++ rest.drop src.length)) (src.length + 1) 0
        = some (w.take (src.length + 1) ++ 0 :: rest') by
    obtain ⟨rest', hlength, hcut⟩ := hcut
    refine ⟨rest', hlength, ?_⟩
    rw [concat_eq_store hw hsrc hroom, hcut]
    rfl
  have hcopied : (src ++ rest.drop src.length).length = rest.length := by
    rw [List.length_append, List.length_drop]
    omega
  generalize src ++ rest.drop src.length = copied at hcopied ⊢
  rcases Nat.lt_trichotomy (src.length + 1) w.length with hlt | heq | hgt
  · -- the zero lands in the string
    have hsplit : w = w.take (src.length + 1) ++ w[src.length + 1] :: w.drop (src.length + 1 + 1) := by
      rw [← List.drop_eq_getElem_cons hlt, List.take_append_drop]
    have hlength : (w.take (src.length + 1)).length = src.length + 1 := by
      rw [List.length_take]
      omega
    refine ⟨w.drop (src.length + 1 + 1) ++ 0 :: copied, ?_, ?_⟩
    · rw [hlength, List.length_append, List.length_drop, List.length_cons]
      omega
    · have hborder := store_border (w.take (src.length + 1))
        (w.drop (src.length + 1 + 1) ++ 0 :: copied) w[src.length + 1] 0
      rw [hlength] at hborder
      rw [← hborder, ← List.cons_append, ← List.append_assoc, ← hsplit]
  · -- it lands on the old terminator
    refine ⟨copied, ?_, ?_⟩
    · rw [heq, List.take_length, hcopied]
    · rw [heq, List.take_length]
      exact store_border w copied 0 0
  · -- it lands behind the terminator
    have htake : w.take (src.length + 1) = w := List.take_of_length_le (Nat.le_of_lt hgt)
    obtain ⟨k, hk⟩ := Nat.exists_eq_add_of_lt hgt
    refine ⟨copied.set k 0, ?_, ?_⟩
    · rw [htake, List.length_set, hcopied]
    · have hin : src.length + 1 < (w ++ 0 :: copied).length := by
        rw [List.length_append, List.length_cons]
        omega
      have hindex : w.length + k + 1 - w.length = k + 1 := by omega
      rw [htake, store, if_pos hin, hk, List.set_append_right _ _ (by omega), hindex,
        List.set_cons_succ]

/-- `src` is appended to `dest`, and no byte behind the terminator is stored to. -/
def Appended (w src : List UInt8) (r : Concatenated) : Prop :=
  cString r.dest = w ++ src ∧ ∀ i ∈ r.stores, i ≤ (w ++ src).length

/-- `concat` appends only the empty string, and only to a string of one character. -/
theorem concat_appends_iff (hw : 0 ∉ w) (hsrc : 0 ∉ src) (hroom : src.length ≤ rest.length) :
    (∃ r, concat (w ++ 0 :: rest) (src ++ 0 :: tail) = some r ∧ Appended w src r)
      ↔ src = [] ∧ w.length = 1 := by
  constructor
  · rintro ⟨r, hr, hstring, hstores⟩
    have hin : src.length + 1 < w.length + 1 + rest.length := by
      rw [concat_eq_store hw hsrc hroom] at hr
      obtain ⟨dest, hdest, -⟩ := Option.map_eq_some_iff.mp hr
      by_contra hout
      have hlength : ¬ src.length + 1 < (w ++ 0 :: (src ++ rest.drop src.length)).length := by
        simp only [List.length_append, List.length_cons, List.length_drop]
        omega
      rw [store, if_neg hlength] at hdest
      exact Option.some_ne_none dest hdest.symm
    obtain ⟨rest', -, heq⟩ := concat_eq w src rest tail hw hsrc hroom hin
    obtain rfl := Option.some.inj (heq.symm.trans hr)
    -- the string is cut off, so it is as long as both only when `src` is empty
    have hcut : w.take (src.length + 1) = w ++ src := by
      rw [← hstring, cString_terminated fun hmem => hw (List.mem_of_mem_take hmem)]
    have hlength := congrArg List.length hcut
    rw [List.length_take, List.length_append] at hlength
    obtain rfl : src = [] := List.length_eq_zero_iff.mp (by omega)
    have hstore := hstores 1 List.mem_cons_self
    rw [List.append_nil] at hstore
    rw [List.length_nil] at hlength
    exact ⟨rfl, by omega⟩
  · rintro ⟨rfl, hone⟩
    obtain ⟨c, rfl⟩ := List.length_eq_one_iff.mp hone
    have hin : ([] : List UInt8).length + 1 < [c].length + 1 + rest.length := by
      rw [List.length_nil, List.length_singleton]
      omega
    obtain ⟨rest', -, heq⟩ := concat_eq [c] [] rest tail hw hsrc hroom hin
    refine ⟨_, heq, cString_terminated (w := [c]) hw, fun i hi => ?_⟩
    obtain rfl := List.mem_singleton.mp hi
    exact Nat.le_refl 1

/-! ## The vendor id -/

/-- Of three strings, the first no longer than the others, only the first is left. -/
theorem startupVendorId_strings {vendorId part1 part2 part3 tail1 tail2 tail3 : List UInt8}
    (h1 : 0 ∉ part1) (h2 : 0 ∉ part2) (h3 : 0 ∉ part3) (h12 : part1.length ≤ part2.length)
    (h13 : part1.length ≤ part3.length)
    (hroom2 : part1.length + 1 + part2.length < vendorId.length)
    (hroom3 : part1.length + 1 + part3.length < vendorId.length) :
    ∃ rest', startupVendorId vendorId (part1 ++ 0 :: tail1) (part2 ++ 0 :: tail2)
      (part3 ++ 0 :: tail3) = some (part1 ++ 0 :: rest') := by
  obtain ⟨rest2, hlength2, heq2⟩ := concat_eq part1 part2
    (vendorId.drop (part1.length + 1)) tail2 h1 h2 (by rw [List.length_drop]; omega)
    (by rw [List.length_drop]; omega)
  rw [List.take_of_length_le (by omega), List.length_drop] at hlength2
  rw [List.take_of_length_le (by omega)] at heq2
  obtain ⟨rest3, -, heq3⟩ := concat_eq part1 part3 rest2 tail3 h1 h3 (by omega)
    (by omega)
  rw [List.take_of_length_le (by omega)] at heq3
  refine ⟨rest3, ?_⟩
  rw [startupVendorId, strcpy_eq h1 (by omega)]
  simp only [Option.bind_eq_bind, Option.bind_some, heq2, heq3]

/-- What `kernel_startup` leaves depends on how many bytes without a zero lie above its arguments. -/
theorem kernelStartupVendorId_eq (tail : List UInt8) {vendorId vendor above : List UInt8}
    (hvendor : 0 ∉ vendor) (habove : 0 ∉ above) (hlength : vendor.length = 12)
    (hroom : 21 + 2 * above.length ≤ vendorId.length) :
    ∃ rest', kernelStartupVendorId vendorId (vendor ++ (above ++ 0 :: tail))
      = some ((vendor ++ above).take (5 + above.length) ++ 0 :: rest') := by
  have hzero : 0 ∉ vendor ++ above := by
    rw [List.mem_append]
    exact fun hmem => hmem.elim hvendor habove
  have hstack : vendor ++ (above ++ 0 :: tail) = (vendor ++ above) ++ 0 :: tail :=
    (List.append_assoc _ _ _).symm
  have htotal : (vendor ++ above).length = 12 + above.length := by
    rw [List.length_append, hlength]
  generalize vendor ++ above = text at hstack hzero htotal ⊢
  have hdrop : ∀ k, k ≤ 12 → (text ++ 0 :: tail).drop k = text.drop k ++ 0 :: tail :=
    fun k hk => List.drop_append_of_le_length (by omega)
  -- each call cuts off what the one before has left
  obtain ⟨rest2, hlength2, heq2⟩ := concat_eq text (text.drop 4)
    (vendorId.drop (text.length + 1)) tail hzero (fun hmem => hzero (List.mem_of_mem_drop hmem))
    (by rw [List.length_drop, List.length_drop]; omega)
    (by rw [List.length_drop, List.length_drop]; omega)
  rw [List.length_take, List.length_drop, List.length_drop] at hlength2
  rw [List.length_drop] at heq2
  obtain ⟨rest3, -, heq3⟩ := concat_eq (text.take (text.length - 4 + 1))
    (text.drop 8) rest2 tail (fun hmem => hzero (List.mem_of_mem_take hmem))
    (fun hmem => hzero (List.mem_of_mem_drop hmem))
    (by rw [List.length_drop]; omega) (by rw [List.length_drop, List.length_take]; omega)
  rw [List.length_drop, List.take_take] at heq3
  refine ⟨rest3, ?_⟩
  have hmin : min (text.length - 8 + 1) (text.length - 4 + 1) = 5 + above.length := by omega
  rw [hmin] at heq3
  rw [kernelStartupVendorId, startupVendorId, hstack, hdrop 4 (by omega), hdrop 8 (by omega),
    strcpy_eq hzero (by omega)]
  simp only [Option.bind_eq_bind, Option.bind_some, heq2, heq3]

/-- The kernel shows the whole vendor id only when seven such bytes lie there. -/
theorem kernelStartupVendorId_eq_vendor_iff {vendorId vendor above : List UInt8}
    (hvendor : 0 ∉ vendor) (habove : 0 ∉ above) (hlength : vendor.length = 12)
    (hroom : 21 + 2 * above.length ≤ vendorId.length) :
    (∃ rest', kernelStartupVendorId vendorId (vendor ++ (above ++ 0 :: tail))
      = some (vendor ++ 0 :: rest')) ↔ above.length = 7 := by
  obtain ⟨rest', heq⟩ := kernelStartupVendorId_eq tail hvendor habove hlength hroom
  have hzero : 0 ∉ (vendor ++ above).take (5 + above.length) := by
    intro hmem
    rcases List.mem_append.mp (List.mem_of_mem_take hmem) with hmem | hmem
    · exact hvendor hmem
    · exact habove hmem
  constructor
  · rintro ⟨rest'', h⟩
    -- the two strings have the same length
    have hstring := congrArg (Option.map cString) (heq.symm.trans h)
    rw [Option.map_some, Option.map_some, cString_terminated hzero, cString_terminated hvendor,
      Option.some.injEq] at hstring
    have hlen := congrArg List.length hstring
    rw [List.length_take, List.length_append] at hlen
    omega
  · intro hseven
    have hlen : 5 + 7 = vendor.length := hlength.symm
    refine ⟨rest', ?_⟩
    rw [heq, hseven, hlen, List.take_left]

/-- **What `concat` appends.**  It appends `src` to `dest` without a store behind the terminator only
    when `src` is empty and `dest` has exactly one character; and the three parts of a vendor id
    never come out as one string: only the first is left. -/
theorem concat_appends_exactly (w src rest tail : List UInt8) (hw : 0 ∉ w) (hsrc : 0 ∉ src)
    (hroom : src.length ≤ rest.length) :
    ((∃ r, concat (w ++ 0 :: rest) (src ++ 0 :: tail) = some r ∧ Appended w src r) ↔
      src = [] ∧ w.length = 1) ∧
    (∀ vendorId part1 part2 part3 tail1 tail2 tail3 : List UInt8,
      0 ∉ part1 → 0 ∉ part2 → 0 ∉ part3 →
      part1.length = 4 → part2.length = 4 → part3.length = 4 → 13 ≤ vendorId.length →
      ∃ rest', startupVendorId vendorId (part1 ++ 0 :: tail1) (part2 ++ 0 :: tail2)
        (part3 ++ 0 :: tail3) = some (part1 ++ 0 :: rest')) :=
  ⟨concat_appends_iff hw hsrc hroom,
    fun _ _ _ _ _ _ _ h1 h2 h3 hlen1 hlen2 hlen3 hvendor =>
      startupVendorId_strings h1 h2 h3 (by omega) (by omega) (by omega) (by omega)⟩

/-- Behind one character the empty string is appended; of "Genu", "ineI" and "ntel", "Genu" is left. -/
theorem concat_appends_exactly_intel :
    (∃ r, concat [71, 0] [0] = some r ∧ Appended [71] [] r) ∧
    ∃ rest', startupVendorId (List.replicate 13 0) [71, 101, 110, 117, 0] [105, 110, 101, 73, 0]
      [110, 116, 101, 108, 0] = some ([71, 101, 110, 117] ++ 0 :: rest') :=
  have hone := concat_appends_exactly [71] [] [] [] (by decide) (by decide) (by decide)
  ⟨hone.1.mpr ⟨rfl, rfl⟩, hone.2 (List.replicate 13 0) [71, 101, 110, 117]
    [105, 110, 101, 73] [110, 116, 101, 108] [] [] [] (by decide) (by decide) (by decide) rfl rfl
    rfl (by decide)⟩

/-- It does not append "ineI" to "Genu". -/
theorem not_concat_appends :
    ¬ ∀ w src rest tail : List UInt8, 0 ∉ w → 0 ∉ src → src.length ≤ rest.length →
      ∃ r, concat (w ++ 0 :: rest) (src ++ 0 :: tail) = some r ∧ Appended w src r := by
  intro h
  obtain ⟨r, hr, hstring, -⟩ := h [71, 101, 110, 117] [105, 110, 101, 73] [0, 0, 0, 0] [] (by decide)
    (by decide) (by decide)
  have hleft : concat [71, 101, 110, 117, 0, 0, 0, 0, 0] [105, 110, 101, 73, 0]
      = some ⟨[71, 101, 110, 117, 0, 0, 110, 101, 73], [5, 6, 7, 8, 5]⟩ := by decide
  obtain rfl := Option.some.inj (hleft.symm.trans hr)
  exact absurd hstring (by decide)

end MyOs.Libraries
