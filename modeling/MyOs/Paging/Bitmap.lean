/-
  The page bitmap of `libraries/paging.c`: one bit for each 4 KiB page of a 32-bit address
  space, set when the page is reserved and clear when it is free.

  1. **Program**: `setPageStatus`, `checkPageStatus` and `setRegionStatus`, with the arithmetic of
     the C code on its own types: `uint32_t` pages and addresses wrap at `2^32`, and the mask
     `1 << bit` is applied to one byte.
  2. **Abstraction**: `freeSet b`, the set of pages whose bit is clear.  Everything later modules
     say about a bitmap they say about this set.
  3. **Read after write**: `setPageStatus` moves one page in or out of `freeSet` and
     `setRegionStatus` a whole range (`mem_freeSet_setPageStatus`, `mem_freeSet_setRegionStatus`).

  A page beyond the bitmap is undefined behaviour in C.  No caller passes one (a page index is
  always a 32-bit address divided by 4096); in the model such a page reads as reserved and a
  write to it changes nothing.
-/
import MyOs.Lib.Bits
import Mathlib.Data.Set.Basic
import Mathlib.Tactic.Tauto

namespace MyOs.Paging

open MyOs.Lib.Bits

/-! ## The bitmap and its accessors -/

/-- `TOTAL_PAGES`: the pages of a 32-bit address space. -/
abbrev totalPages : Nat := 0x100000000 / 4096

/-- `BITMAP_SIZE`: the bytes of the bitmap. -/
abbrev bitmapSize : Nat := totalPages / 8

/-- `static uint8_t bitmap[BITMAP_SIZE]`. -/
abbrev Bitmap := Vector UInt8 bitmapSize

/-- `bitmap[byte]`. -/
def byteAt (bitmap : Bitmap) (byte : Nat) : UInt8 := bitmap[byte]?.getD 0xFF

/-- `set_page_status`: `true` for reserved, `false` for free. -/
def setPageStatus (bitmap : Bitmap) (page : UInt32) (status : Bool) : Bitmap :=
  let byte := (page / 8).toNat
  let bit := (page % 8).toUInt8
  if status then bitmap.setIfInBounds byte (byteAt bitmap byte ||| (1 <<< bit))
  else bitmap.setIfInBounds byte (byteAt bitmap byte &&& ~~~(1 <<< bit))

/-- `check_page_status`: whether the page is reserved. -/
def checkPageStatus (bitmap : Bitmap) (page : UInt32) : Bool :=
  let byte := (page / 8).toNat
  let bit := (page % 8).toUInt8
  (byteAt bitmap byte >>> bit) &&& 1 != 0

/-- `set_region_status`: freeing rounds the region inwards to whole pages, reserving rounds it
    outwards; both roundings are 32-bit sums. -/
def setRegionStatus (bitmap : Bitmap) (base length : UInt32) (status : Bool) : Bitmap :=
  let startPage := if status then base / 4096 else (base + 4095) / 4096
  let endPage := if status then (base + length + 4095) / 4096 else (base + length) / 4096
  (List.range' startPage.toNat (endPage.toNat - startPage.toNat)).foldl
    (fun bitmap i => setPageStatus bitmap (UInt32.ofNat i) status) bitmap

/-! ## The abstract view: the set of free pages -/

/-- The pages whose bit is clear. -/
def freeSet (bitmap : Bitmap) : Set Nat :=
  {p | (byteAt bitmap (p / 8)).toNat.testBit (p % 8) = false}

theorem mem_freeSet {b : Bitmap} {p : Nat} :
    p ∈ freeSet b ↔ (byteAt b (p / 8)).toNat.testBit (p % 8) = false :=
  Iff.rfl

/-- A page has a byte in the bitmap exactly when it is a page of the address space. -/
theorem div_lt_bitmapSize {p : Nat} : p / 8 < bitmapSize ↔ p < totalPages := by
  have hsize : bitmapSize = 131072 := rfl
  have hpages : totalPages = 1048576 := rfl
  omega

theorem byteAt_of_lt (b : Bitmap) {i : Nat} (hi : i < bitmapSize) : byteAt b i = b[i] := by
  rw [byteAt, Vector.getElem?_eq_getElem hi, Option.getD_some]

theorem byteAt_of_ge (b : Bitmap) {i : Nat} (hi : bitmapSize ≤ i) : byteAt b i = 0xFF := by
  rw [byteAt, Vector.getElem?_eq_none hi, Option.getD_none]

theorem byteAt_setIfInBounds (b : Bitmap) {i : Nat} (x : UInt8) (hi : i < bitmapSize) (j : Nat) :
    byteAt (b.setIfInBounds i x) j = if i = j then x else byteAt b j := by
  rw [byteAt, Vector.getElem?_setIfInBounds]
  split
  · rw [Option.getD_some]
  · rfl

/-- A byte that reads `0xFF` holds no free page. -/
theorem not_mem_freeSet_of_ff {b : Bitmap} {p : Nat} (h : byteAt b (p / 8) = 0xFF) :
    p ∉ freeSet b := by
  rw [mem_freeSet, h, testBit_ff (Nat.mod_lt p (by decide))]
  exact Bool.noConfusion

/-- The free pages are pages of the address space. -/
theorem lt_totalPages_of_mem_freeSet {b : Bitmap} {p : Nat} (h : p ∈ freeSet b) :
    p < totalPages := by
  rw [← div_lt_bitmapSize]
  by_contra hp
  exact not_mem_freeSet_of_ff (byteAt_of_ge b (Nat.le_of_not_lt hp)) h

theorem byte_toNat (page : UInt32) : (page / 8).toNat = page.toNat / 8 := by
  rw [UInt32.toNat_div]
  rfl

/-- The bit number of a page, as the shift count of the C code. -/
theorem bit_toNat (page : UInt32) : (page % 8).toUInt8.toNat = page.toNat % 8 := by
  rw [UInt32.toNat_toUInt8, UInt32.toNat_mod]
  simp only [UInt32.reduceToNat]
  omega

theorem bit_lt (page : UInt32) : (page % 8).toUInt8.toNat < 8 := by
  rw [bit_toNat]
  exact Nat.mod_lt _ (by decide)

/-- `check_page_status` reads membership in `freeSet`. -/
theorem checkPageStatus_eq_false_iff (b : Bitmap) (page : UInt32) :
    checkPageStatus b page = false ↔ page.toNat ∈ freeSet b := by
  rw [mem_freeSet, checkPageStatus, shr_and_one _ _ (bit_lt page), bit_toNat, byte_toNat]

/-- **Read after write**: `set_page_status` decides its own page and no other. -/
theorem mem_freeSet_setPageStatus (b : Bitmap) (page : UInt32) (status : Bool)
    (hp : page.toNat < totalPages) (q : Nat) :
    q ∈ freeSet (setPageStatus b page status) ↔
      if q = page.toNat then status = false else q ∈ freeSet b := by
  have hbyte : page.toNat / 8 < bitmapSize := div_lt_bitmapSize.mpr hp
  have hq8 : q % 8 < 8 := Nat.mod_lt q (by decide)
  simp only [setPageStatus, byte_toNat, mem_freeSet]
  by_cases hbytes : page.toNat / 8 = q / 8
  · -- the page and `q` share a byte: they are equal exactly when their bits are
    have hqp : q = page.toNat ↔ page.toNat % 8 = q % 8 := by omega
    cases status with
    | true =>
      rw [if_pos rfl, byteAt_setIfInBounds b _ hbyte, if_pos hbytes,
        testBit_or_one_shl _ _ _ (bit_lt page), bit_toNat, hbytes]
      by_cases hbits : page.toNat % 8 = q % 8
      · rw [if_pos (hqp.mpr hbits)]; simp [hbits]
      · rw [if_neg (fun h => hbits (hqp.mp h))]; simp [hbits]
    | false =>
      rw [if_neg Bool.false_ne_true, byteAt_setIfInBounds b _ hbyte, if_pos hbytes,
        testBit_and_not_one_shl _ _ _ (bit_lt page) hq8, bit_toNat, hbytes]
      by_cases hbits : page.toNat % 8 = q % 8
      · rw [if_pos (hqp.mpr hbits)]; simp [hbits]
      · rw [if_neg (fun h => hbits (hqp.mp h))]; simp [hbits]
  · have hne : q ≠ page.toNat := by
      rintro rfl
      exact hbytes rfl
    rw [if_neg hne]
    cases status with
    | true => rw [if_pos rfl, byteAt_setIfInBounds b _ hbyte, if_neg hbytes]
    | false => rw [if_neg Bool.false_ne_true, byteAt_setIfInBounds b _ hbyte, if_neg hbytes]

/-- A bitmap is determined by its free pages. -/
theorem eq_of_freeSet_eq {b b' : Bitmap} (h : freeSet b = freeSet b') : b = b' := by
  apply Vector.ext
  intro i hi
  apply UInt8.toNat_inj.mp
  apply Nat.eq_of_testBit_eq
  intro j
  rcases Nat.lt_or_ge j 8 with hj | hj
  · have hmem : 8 * i + j ∈ freeSet b ↔ 8 * i + j ∈ freeSet b' := by rw [h]
    rw [mem_freeSet, mem_freeSet, show (8 * i + j) / 8 = i by omega,
      show (8 * i + j) % 8 = j by omega, byteAt_of_lt b hi, byteAt_of_lt b' hi] at hmem
    rw [Bool.eq_iff_iff, ← not_iff_not, Bool.not_eq_true, Bool.not_eq_true]
    exact hmem
  · have hpow : 2 ^ 8 ≤ 2 ^ j := Nat.pow_le_pow_right (by decide) hj
    rw [Nat.testBit_lt_two_pow (Nat.lt_of_lt_of_le (b[i]).toNat_lt hpow),
      Nat.testBit_lt_two_pow (Nat.lt_of_lt_of_le (b'[i]).toNat_lt hpow)]

/-! ## A whole region -/

theorem toNat_ofNat_page {p : Nat} (hp : p < totalPages) : (UInt32.ofNat p).toNat = p := by
  have hpages : totalPages = 1048576 := rfl
  exact UInt32.toNat_ofNat_of_lt' (by simp only [UInt32.size]; omega)

/-- The loop of `set_region_status` over the pages `s, s + 1, ..., s + n - 1`. -/
theorem mem_freeSet_setPages (status : Bool) : ∀ (n s : Nat) (b : Bitmap), s + n ≤ totalPages →
    ∀ q, q ∈ freeSet ((List.range' s n).foldl
        (fun bitmap i => setPageStatus bitmap (UInt32.ofNat i) status) b) ↔
      if s ≤ q ∧ q < s + n then status = false else q ∈ freeSet b := by
  intro n
  induction n with
  | zero =>
    intro s b _ q
    rw [List.range'_zero, List.foldl_nil, if_neg (by omega)]
  | succ n ih =>
    intro s b hs q
    have hsp : (UInt32.ofNat s).toNat = s := toNat_ofNat_page (by omega)
    rw [List.range'_succ, List.foldl_cons, ih (s + 1) _ (by omega) q,
      mem_freeSet_setPageStatus b _ status (by omega) q, hsp]
    by_cases hq : s + 1 ≤ q ∧ q < s + 1 + n
    · rw [if_pos hq, if_pos (by omega)]
    · rw [if_neg hq]
      by_cases hqs : q = s
      · rw [if_pos hqs, if_pos (by omega)]
      · rw [if_neg hqs, if_neg (by omega)]

/-- The first page a region call touches. -/
def startPage (base : UInt32) (status : Bool) : Nat :=
  if status then base.toNat / 4096 else (base.toNat + 4095) % 2 ^ 32 / 4096

/-- One past the last page a region call touches. -/
def endPage (base length : UInt32) (status : Bool) : Nat :=
  if status then (base.toNat + length.toNat + 4095) % 2 ^ 32 / 4096
  else (base.toNat + length.toNat) % 2 ^ 32 / 4096

/-- No call reaches beyond the bitmap. -/
theorem endPage_lt (base length : UInt32) (status : Bool) :
    endPage base length status < totalPages := by
  have hpages : totalPages = 1048576 := rfl
  cases status <;> simp only [endPage, if_pos, Bool.false_eq_true, if_false] <;> omega

/-- **`set_region_status`**: the pages from the rounded start up to the rounded end get the
    status, no other page changes. -/
theorem mem_freeSet_setRegionStatus (b : Bitmap) (base length : UInt32) (status : Bool)
    (q : Nat) :
    q ∈ freeSet (setRegionStatus b base length status) ↔
      if startPage base status ≤ q ∧ q < endPage base length status then status = false
      else q ∈ freeSet b := by
  have hstart : (if status then base / 4096 else (base + 4095) / 4096).toNat
      = startPage base status := by
    cases status <;> simp [startPage]
  have hend : (if status then (base + length + 4095) / 4096 else (base + length) / 4096).toNat
      = endPage base length status := by
    cases status <;> simp [endPage]
  have hlt := endPage_lt base length status
  rw [setRegionStatus, hstart, hend]
  by_cases hle : startPage base status ≤ endPage base length status
  · rw [mem_freeSet_setPages status _ _ b (by omega) q,
      show startPage base status + (endPage base length status - startPage base status)
        = endPage base length status by omega]
  · -- an empty range: the loop body never runs
    rw [show endPage base length status - startPage base status = 0 by omega, List.range'_zero,
      List.foldl_nil, if_neg (by omega)]

end MyOs.Paging
