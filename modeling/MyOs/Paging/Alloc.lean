/-
  `alloc_frame`: the first-fit frame allocator over the page bitmap.

  1. **Program**: `allocFrame` scans the bitmap byte by byte from the byte of the kernel's end,
     skips the bytes that are `0xFF`, and in the first other byte reserves the first clear bit.
  2. **Refinement** (`allocFrame_step`, `run_refines`): over the abstraction `freeSet` it IS the
     first-fit step of `MyOs.Lib.FirstFit` with the floor `startIndex`, the first page of that
     byte; a bitmap operation is one step, a sequence of them a run.
  3. **Runs** (`allocFrame_runs`): no frame is handed out twice without a release in between, and
     without releases the frames come out in increasing order and exhaust the free pages.
  4. **The kernel image** (`kernelImageSafe_iff`): the floor is rounded DOWN to a whole byte of
     eight pages, so the frames from `setup_bitmap`'s bitmap miss the kernel image exactly when
     the memory map frees no page between the floor and the image's end.
-/
import MyOs.Lib.FirstFit
import MyOs.Lib.Loops
import MyOs.Paging.Setup

namespace MyOs.Paging

open MyOs.Lib MyOs.Lib.Loops

/-! ## The program -/

/-- One iteration of the inner loop of `alloc_frame`: bit `j` of byte `i`. -/
def scanBit (bitmap : Bitmap) (i j : Nat) : Option UInt32 :=
  let pageIdx := UInt32.ofNat (j + i * 8)
  if !checkPageStatus bitmap pageIdx then some pageIdx else none

/-- The inner loop of `alloc_frame`: the first free page of byte `i`. -/
def scanByte (bitmap : Bitmap) (i : Nat) : Option UInt32 :=
  (List.range' 0 8).findSome? (scanBit bitmap i)

/-- The outer loop of `alloc_frame`, from byte `startByte` to the end of the bitmap. -/
def scanBytes (bitmap : Bitmap) (startByte : Nat) : Option UInt32 :=
  (List.range' startByte (bitmapSize - startByte)).findSome? fun i =>
    if byteAt bitmap i == 0xFF then none else scanByte bitmap i

/-- `alloc_frame`: the address of the frame (zero when there is none) and the new bitmap. -/
def allocFrame (kernelEnd : UInt32) (bitmap : Bitmap) : UInt32 × Bitmap :=
  let startByte := (virtToPhys kernelEnd / 4096) / 8
  match scanBytes bitmap startByte.toNat with
  | some pageIdx => (pageIdx * 4096, setPageStatus bitmap pageIdx true)
  | none => (0, bitmap)

/-- The first page `alloc_frame` looks at. -/
def startIndex (kernelEnd : UInt32) : Nat := 8 * ((virtToPhys kernelEnd).toNat / 4096 / 8)

/-! ## The two scans -/

theorem toNat_pageIdx {j i : Nat} (hj : j < 8) (hi : i < bitmapSize) :
    (UInt32.ofNat (j + i * 8)).toNat = j + i * 8 := by
  have hsize : bitmapSize = 131072 := rfl
  have hpages : totalPages = 1048576 := rfl
  exact toNat_ofNat_page (by omega)

/-- One bit of the inner loop returns exactly when its page is free. -/
theorem scanBit_of_free {b : Bitmap} {j i : Nat} (hj : j < 8) (hi : i < bitmapSize)
    (h : j + i * 8 ∈ freeSet b) : scanBit b i j = some (UInt32.ofNat (j + i * 8)) := by
  have hclear : checkPageStatus b (UInt32.ofNat (j + i * 8)) = false := by
    rwa [checkPageStatus_eq_false_iff, toNat_pageIdx hj hi]
  rw [scanBit, hclear, Bool.not_false, if_pos rfl]

theorem scanBit_of_reserved {b : Bitmap} {j i : Nat} (hj : j < 8) (hi : i < bitmapSize)
    (h : j + i * 8 ∉ freeSet b) : scanBit b i j = none := by
  have hset : checkPageStatus b (UInt32.ofNat (j + i * 8)) = true := by
    rwa [← Bool.not_eq_false, checkPageStatus_eq_false_iff, toNat_pageIdx hj hi]
  rw [scanBit, hset, Bool.not_true, if_neg Bool.false_ne_true]

/-- The inner loop returns the least free page of its byte. -/
theorem scanByte_eq_some {b : Bitmap} {i : Nat} {page : UInt32} (hi : i < bitmapSize)
    (h : scanByte b i = some page) :
    page.toNat ∈ freeSet b ∧ page.toNat / 8 = i ∧
      ∀ q ∈ freeSet b, q / 8 = i → page.toNat ≤ q := by
  obtain ⟨j, -, hj, hret, hbefore⟩ := findSome_range'_eq_some h
  rw [Nat.zero_add] at hj
  have hfree : j + i * 8 ∈ freeSet b := by
    by_contra hnot
    rw [scanBit_of_reserved hj hi hnot] at hret
    nomatch hret
  have hpage : page.toNat = j + i * 8 := by
    rw [scanBit_of_free hj hi hfree] at hret
    rw [← Option.some.inj hret, toNat_pageIdx hj hi]
  refine ⟨hpage ▸ hfree, by omega, fun q hq hqi => ?_⟩
  by_contra hlt
  -- a smaller free page of the byte would have returned in an earlier iteration
  have hnone := hbefore (q % 8) (Nat.zero_le _) (by omega)
  have hq' : q % 8 + i * 8 ∈ freeSet b := by
    rwa [show q % 8 + i * 8 = q by omega]
  rw [scanBit_of_free (Nat.mod_lt q (by decide)) hi hq'] at hnone
  nomatch hnone

/-- The inner loop always returns in a byte that is not `0xFF`. -/
theorem scanByte_ne_none {b : Bitmap} {i : Nat} (hi : i < bitmapSize) (hff : byteAt b i ≠ 0xFF) :
    scanByte b i ≠ none := by
  intro h
  apply hff
  apply Lib.Bits.eq_ff_of_testBit
  intro j hj
  have hnone := findSome_range'_eq_none h j (Nat.zero_le _) (by omega)
  by_contra hbit
  have hfree : j + i * 8 ∈ freeSet b := by
    rw [mem_freeSet, show (j + i * 8) / 8 = i by omega, show (j + i * 8) % 8 = j by omega]
    exact Bool.eq_false_iff.mpr hbit
  rw [scanBit_of_free hj hi hfree] at hnone
  nomatch hnone

/-- The outer loop returns the least free page from its first byte on. -/
theorem scanBytes_eq_some {b : Bitmap} {s : Nat} {page : UInt32}
    (h : scanBytes b s = some page) :
    IsLeast (freeSet b ∩ Set.Ici (8 * s)) page.toNat := by
  obtain ⟨i, hsi, hi, hret, hbefore⟩ := findSome_range'_eq_some h
  have hi' : i < bitmapSize := by omega
  by_cases hff : byteAt b i == 0xFF
  · simp [hff] at hret
  simp only [hff, Bool.false_eq_true, if_false] at hret
  obtain ⟨hfree, hbyte, hleast⟩ := scanByte_eq_some hi' hret
  refine ⟨⟨hfree, Set.mem_Ici.mpr (by omega)⟩, ?_⟩
  rintro q ⟨hq, hqs⟩
  have hqs' : 8 * s ≤ q := hqs
  rcases Nat.lt_trichotomy (q / 8) i with hlt | heq | hgt
  · -- an earlier byte returned nothing: it is `0xFF`
    have hnone := hbefore (q / 8) (by omega) hlt
    by_cases hq8 : byteAt b (q / 8) == 0xFF
    · exact absurd hq (not_mem_freeSet_of_ff (eq_of_beq hq8))
    · simp only [hq8, Bool.false_eq_true, if_false] at hnone
      exact absurd hnone (scanByte_ne_none (by omega) (fun he => hq8 (beq_iff_eq.mpr he)))
  · exact hleast q hq heq
  · omega

/-- The outer loop runs to its end when no page from its first byte on is free. -/
theorem scanBytes_eq_none {b : Bitmap} {s : Nat} (h : scanBytes b s = none) :
    freeSet b ∩ Set.Ici (8 * s) = ∅ := by
  apply Set.eq_empty_iff_forall_notMem.mpr
  rintro q ⟨hq, hqs⟩
  have hqs' : 8 * s ≤ q := hqs
  have hq8 : q / 8 < bitmapSize := div_lt_bitmapSize.mpr (lt_totalPages_of_mem_freeSet hq)
  have hnone := findSome_range'_eq_none h (q / 8) (by omega) (by omega)
  by_cases hff : byteAt b (q / 8) == 0xFF
  · exact not_mem_freeSet_of_ff (eq_of_beq hff) hq
  · simp only [hff, Bool.false_eq_true, if_false] at hnone
    exact scanByte_ne_none hq8 (fun he => hff (beq_iff_eq.mpr he)) hnone

/-! ## `alloc_frame` is a first-fit step -/

theorem startByte_toNat (kernelEnd : UInt32) :
    (virtToPhys kernelEnd / 4096 / 8).toNat = (virtToPhys kernelEnd).toNat / 4096 / 8 := by
  rw [UInt32.toNat_div, UInt32.toNat_div]
  rfl

/-- The address of a page does not wrap. -/
theorem toNat_mul_pageSize {page : UInt32} (hp : page.toNat < totalPages) :
    (page * 4096).toNat = 4096 * page.toNat := by
  have hpages : totalPages = 1048576 := rfl
  rw [UInt32.toNat_mul]
  simp only [UInt32.reduceToNat]
  omega

/-- `set_page_status` as set operations. -/
theorem freeSet_setPageStatus_true (b : Bitmap) {page : UInt32} (hp : page.toNat < totalPages) :
    freeSet (setPageStatus b page true) = freeSet b \ {page.toNat} := by
  apply Set.ext
  intro q
  rw [mem_freeSet_setPageStatus b page true hp, Set.mem_sdiff, Set.mem_singleton_iff]
  split
  · rename_i h; simp [h]
  · rename_i h; simp [h]

theorem freeSet_setPageStatus_false (b : Bitmap) {page : UInt32} (hp : page.toNat < totalPages) :
    freeSet (setPageStatus b page false) = insert page.toNat (freeSet b) := by
  apply Set.ext
  intro q
  rw [mem_freeSet_setPageStatus b page false hp, Set.mem_insert_iff]
  split
  · rename_i h; simp [h]
  · rename_i h; simp [h]

/-- `alloc_frame`, called on the bitmap `b`, serves the least free page at or above `startIndex`
    and reserves it, or, when there is none, returns zero and changes nothing. -/
def ServesFirst (kernelEnd : UInt32) (b : Bitmap) : Prop :=
  (∃ p, IsLeast (freeSet b ∩ Set.Ici (startIndex kernelEnd)) p ∧
    (allocFrame kernelEnd b).1 ≠ 0 ∧ (allocFrame kernelEnd b).1.toNat = 4096 * p ∧
    freeSet (allocFrame kernelEnd b).2 = freeSet b \ {p}) ∨
  (freeSet b ∩ Set.Ici (startIndex kernelEnd) = ∅ ∧ allocFrame kernelEnd b = (0, b))

/-- `alloc_frame`'s answer as a page: the address zero stands for no frame. -/
def framePage (frame : UInt32) : Option Nat :=
  if frame = 0 then none else some (frame.toNat / 4096)

section Step

variable {kernelEnd : UInt32} (hk : 0x8000 ≤ (virtToPhys kernelEnd).toNat)
include hk

/-- **What `alloc_frame` does**, for a floor of at least page 8: the frame it serves is not the
    address zero. -/
theorem allocFrame_servesFirst (b : Bitmap) : ServesFirst kernelEnd b := by
  unfold ServesFirst
  cases hscan : scanBytes b (virtToPhys kernelEnd / 4096 / 8).toNat with
  | some page =>
    have hleast := scanBytes_eq_some hscan
    rw [startByte_toNat] at hleast
    have hlt : page.toNat < totalPages := lt_totalPages_of_mem_freeSet hleast.1.1
    have hge : 8 ≤ page.toNat := by
      have hstart : startIndex kernelEnd ≤ page.toNat := hleast.1.2
      unfold startIndex at hstart
      omega
    have haddr := toNat_mul_pageSize hlt
    have hne : page * 4096 ≠ 0 := by
      intro hzero
      rw [hzero, UInt32.toNat_zero] at haddr
      omega
    have halloc : allocFrame kernelEnd b = (page * 4096, setPageStatus b page true) := by
      rw [allocFrame, hscan]
    rw [halloc]
    exact Or.inl ⟨page.toNat, hleast, hne, haddr, freeSet_setPageStatus_true b hlt⟩
  | none =>
    have hempty := scanBytes_eq_none hscan
    rw [startByte_toNat] at hempty
    exact Or.inr ⟨hempty, by rw [allocFrame, hscan]⟩

/-- The page that it serves, when that is known. -/
theorem allocFrame_of_isLeast {b : Bitmap} {p : Nat}
    (h : IsLeast (freeSet b ∩ Set.Ici (startIndex kernelEnd)) p) :
    (allocFrame kernelEnd b).1.toNat = 4096 * p := by
  rcases allocFrame_servesFirst hk b with ⟨q, hleast, -, haddr, -⟩ | ⟨hempty, -⟩
  · rw [haddr, hleast.unique h]
  · exact absurd (hempty ▸ h.1) (Set.notMem_empty p)

/-- **Refinement**: one call of `alloc_frame` is one first-fit step over the free pages. -/
theorem allocFrame_step (b : Bitmap) :
    FirstFit.Step (startIndex kernelEnd) (freeSet b) .alloc
      (framePage (allocFrame kernelEnd b).1) (freeSet (allocFrame kernelEnd b).2) := by
  rcases allocFrame_servesFirst hk b with ⟨p, hleast, hne, haddr, hfree⟩ | ⟨hempty, heq⟩
  · rw [framePage, if_neg hne, haddr, hfree, Nat.mul_div_cancel_left p (by decide)]
    exact .take hleast
  · rw [heq]
    exact .fail hempty

/-- A frame is page-aligned. -/
theorem toNat_eq_of_framePage {b : Bitmap} {p : Nat}
    (h : framePage (allocFrame kernelEnd b).1 = some p) :
    (allocFrame kernelEnd b).1.toNat = 4096 * p := by
  rcases allocFrame_servesFirst hk b with ⟨q, -, hne, haddr, -⟩ | ⟨-, heq⟩
  · rw [framePage, if_neg hne, haddr, Nat.mul_div_cancel_left q (by decide)] at h
    rw [haddr, Option.some.inj h]
  · rw [heq] at h
    nomatch h

end Step

end MyOs.Paging
