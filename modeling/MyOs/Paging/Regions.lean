/-
  `set_region_status`, bit by bit.

  1. **Bits and pages** (`testBit_eq_false_iff`): bit `i` of byte `k` of the bitmap belongs to page
     `8 * k + i`.
  2. **What a call changes** (`setRegionStatus_setsExactly`): the bits from `start_page` up to
     `end_page`, whatever the sums are.
  3. **Rounding** (`reservedPages_eq`, `freedPages_eq`): when the sums do not wrap around, these are
     the pages that meet the region (reserving) or lie in it (freeing).
-/
import MyOs.Lib.Rounding
import MyOs.Paging.Bitmap

namespace MyOs.Paging

open MyOs.Lib.Rounding

/-! ## Bits of the bitmap -/

/-- `b'` is `b` with the bits of the pages in `S` set (cleared), and with no other bit changed.  All
    of `S` is inside the bitmap. -/
structure SetsExactly (b b' : Bitmap) (S : Set Nat) (status : Bool) : Prop where
  inside : ∀ p ∈ S, p < totalPages
  changed : ∀ (byte bit : Nat) (_ : byte < bitmapSize), bit < 8 → 8 * byte + bit ∈ S →
    b'[byte].toNat.testBit bit = status
  kept : ∀ (byte bit : Nat) (_ : byte < bitmapSize), bit < 8 → 8 * byte + bit ∉ S →
    b'[byte].toNat.testBit bit = b[byte].toNat.testBit bit

/-- The bit of a page, by byte and number. -/
theorem testBit_eq_false_iff (b : Bitmap) {byte bit : Nat} (hbyte : byte < bitmapSize)
    (hbit : bit < 8) : b[byte].toNat.testBit bit = false ↔ 8 * byte + bit ∈ freeSet b := by
  have hdiv : (8 * byte + bit) / 8 = byte := by omega
  have hmod : (8 * byte + bit) % 8 = bit := by omega
  rw [mem_freeSet, hdiv, hmod, byteAt_of_lt b hbyte]

/-- A call sets (clears) the bits from `start_page` up to `end_page`, and no other. -/
theorem setRegionStatus_setsExactly (b : Bitmap) (base length : UInt32) (status : Bool) :
    SetsExactly b (setRegionStatus b base length status)
      {p | startPage base status ≤ p ∧ p < endPage base length status} status where
  inside := fun _ hp => Nat.lt_trans hp.2 (endPage_lt base length status)
  changed := by
    intro byte bit hbyte hbit hmem
    have hafter := mem_freeSet_setRegionStatus b base length status (8 * byte + bit)
    rw [if_pos ⟨hmem.1, hmem.2⟩, ← testBit_eq_false_iff _ hbyte hbit] at hafter
    cases status with
    | true => rwa [Bool.true_eq_false, iff_false, Bool.not_eq_false] at hafter
    | false => exact hafter.mpr rfl
  kept := by
    intro byte bit hbyte hbit hmem
    have hout : ¬(startPage base status ≤ 8 * byte + bit ∧
        8 * byte + bit < endPage base length status) := hmem
    have hafter := mem_freeSet_setRegionStatus b base length status (8 * byte + bit)
    rw [if_neg hout, ← testBit_eq_false_iff _ hbyte hbit,
      ← testBit_eq_false_iff _ hbyte hbit] at hafter
    rw [Bool.eq_iff_iff, ← not_iff_not, Bool.not_eq_true, Bool.not_eq_true]
    exact hafter

/-! ## The two roundings -/

/-- The addresses of a page. -/
abbrev pageBytes : Nat → Set Nat := block 4096

/-- The addresses `[base, base + length)`. -/
def regionBytes (base length : UInt32) : Set Nat :=
  Set.Ico base.toNat (base.toNat + length.toNat)

section Rounding

variable {base length : UInt32}

/-- Reserving rounds outwards. -/
theorem reservedPages_eq (hlength : 0 < length)
    (hsum : base.toNat + length.toNat + 4095 < 2 ^ 32) :
    {p | startPage base true ≤ p ∧ p < endPage base length true}
      = {p | (pageBytes p ∩ regionBytes base length).Nonempty} := by
  have hpos : 0 < length.toNat := UInt32.lt_iff_toNat_lt.mp hlength
  have hstart : startPage base true = base.toNat / 4096 := rfl
  have hend : endPage base length true = (base.toNat + length.toNat + (4096 - 1)) / 4096 := by
    rw [endPage, if_pos rfl, Nat.mod_eq_of_lt hsum]
  ext p
  show startPage base true ≤ p ∧ p < endPage base length true ↔ _
  rw [hstart, hend]
  exact (block_meets_iff (by decide) (by omega)).symm

/-- Freeing rounds inwards. -/
theorem freedPages_eq (hsum : base.toNat + length.toNat + 4095 < 2 ^ 32) :
    {p | startPage base false ≤ p ∧ p < endPage base length false}
      = {p | pageBytes p ⊆ regionBytes base length} := by
  have hstart : startPage base false = (base.toNat + (4096 - 1)) / 4096 := by
    rw [startPage, if_neg Bool.false_ne_true, Nat.mod_eq_of_lt (by omega)]
  have hend : endPage base length false = (base.toNat + length.toNat) / 4096 := by
    rw [endPage, if_neg Bool.false_ne_true, Nat.mod_eq_of_lt (by omega)]
  ext p
  show startPage base false ≤ p ∧ p < endPage base length false ↔ _
  rw [hstart, hend]
  exact (block_subset_iff (by decide)).symm

/-- **`set_region_status`**: reserving sets the bits of the pages that meet the region, freeing
    clears the bits of the pages that lie in it, and no other bit changes.  After reserving, no page
    that shares a byte with the region is free. -/
theorem setRegionStatus_bits (b : Bitmap) (hlength : 0 < length)
    (hsum : base.toNat + length.toNat + 4095 < 2 ^ 32) :
    SetsExactly b (setRegionStatus b base length true)
      {p | (pageBytes p ∩ regionBytes base length).Nonempty} true ∧
    SetsExactly b (setRegionStatus b base length false)
      {p | pageBytes p ⊆ regionBytes base length} false ∧
    ∀ page : UInt32, (pageBytes page.toNat ∩ regionBytes base length).Nonempty →
      checkPageStatus (setRegionStatus b base length true) page = true := by
  refine ⟨?_, ?_, fun page hmeets => ?_⟩
  · rw [← reservedPages_eq hlength hsum]
    exact setRegionStatus_setsExactly b base length true
  · rw [← freedPages_eq hsum]
    exact setRegionStatus_setsExactly b base length false
  · have hrange : startPage base true ≤ page.toNat ∧ page.toNat < endPage base length true :=
      (Set.ext_iff.mp (reservedPages_eq hlength hsum) page.toNat).mpr hmeets
    rw [← Bool.not_eq_false, checkPageStatus_eq_false_iff, mem_freeSet_setRegionStatus,
      if_pos hrange]
    exact Bool.noConfusion

/-- A region of two bytes across a border reserves both pages, and one of 4098 bytes across two
    borders frees the page between them. -/
theorem setRegionStatus_bits_border :
    checkPageStatus (setRegionStatus (Vector.replicate bitmapSize 0) 4095 2 true) 0 = true ∧
    checkPageStatus (setRegionStatus (Vector.replicate bitmapSize 0) 4095 2 true) 1 = true ∧
    (setRegionStatus (Vector.replicate bitmapSize 0xFF) 4095 4098 false)[0].toNat.testBit 1
      = false := by
  obtain ⟨-, -, hreserved⟩ := @setRegionStatus_bits 4095 2
    (Vector.replicate bitmapSize 0) (by decide) (by decide)
  obtain ⟨-, hfreed, -⟩ := @setRegionStatus_bits 4095 4098
    (Vector.replicate bitmapSize 0xFF) (by decide) (by decide)
  refine ⟨hreserved 0 ⟨4095, ?_⟩, hreserved 1 ⟨4096, ?_⟩, ?_⟩
  · exact ⟨⟨by decide, by decide⟩, by decide, by decide⟩
  · exact ⟨⟨by decide, by decide⟩, by decide, by decide⟩
  · exact hfreed.changed 0 1 (by decide) (by decide) (Set.Ico_subset_Ico (by decide) (by decide))

end Rounding

end MyOs.Paging
