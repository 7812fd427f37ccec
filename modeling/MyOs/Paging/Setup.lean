/-
  `setup_bitmap`: the bitmap that the boot loader's memory map leaves behind.

  1. **Program**: `setupBitmap` marks every page reserved, frees the regions of the map one after
     the other (clipping them at 4 GiB), then reserves the kernel image and the bottom 16 KiB.
  2. **What it computes** (`mem_freeSet_setupBitmap`): a page is free afterwards exactly when it is
     page 4 or later and some region `Frees` it.  Two things of the C code show up in this
     statement by their absence.  The reservation of the kernel image is an empty range
     (`setRegionStatus_kernel`): `kernel_start` is already physical, `virt_to_phys` takes it to
     `0x40100000`, and the sum `base + length` wraps back to the end of the image, which is below.
     And what a region frees is bounded by 32-bit sums (`MemRegion.frees_iff`): a region that
     reaches 4 GiB frees nothing, and one inside the last page of the address space frees nearly
     everything.
  3. **Soundness and completeness** (`freesOnlyListed_iff`, `freesAllListed_iff`): exactly when
     every free page is listed as available, and when every available page is free.
  4. **Order and repetition** (`setupBitmap_same_regions`): the bitmap depends on which regions are
     listed, not on where or how often.
-/
import MyOs.Link
import MyOs.Paging.Bitmap

namespace MyOs.Paging

/-! ## The memory map -/

/-- `mem_region_t`. -/
structure MemRegion where
  base : UInt64
  length : UInt64
deriving DecidableEq, Repr

/-- `MAX_MEM_REGIONS`. -/
abbrev maxMemRegions : Nat := 128

/-- `free_regions[0 .. free_region_count)`. -/
structure MemoryMap where
  regions : List MemRegion
  count_le : regions.length ≤ maxMemRegions

/-- No region of the map ends beyond `2^64`. -/
def MemoryMap.Fits (m : MemoryMap) : Prop :=
  ∀ r ∈ m.regions, r.base.toNat + r.length.toNat ≤ 2 ^ 64

instance (m : MemoryMap) : Decidable m.Fits :=
  inferInstanceAs (Decidable (∀ r ∈ m.regions, _))

/-! ## The program -/

/-- One iteration of the loop of `setup_bitmap` over `free_regions`. -/
def freeRegion (bitmap : Bitmap) (r : MemRegion) : Bitmap :=
  if r.base < 0x100000000 then
    let length := if r.base + r.length > 0x100000000 then 0x100000000 - r.base else r.length
    setRegionStatus bitmap r.base.toUInt32 length.toUInt32 false
  else bitmap

/-- `setup_bitmap`, on whatever the bitmap held before. -/
def setupBitmap (kernelEnd : UInt32) (m : MemoryMap) (bitmap : Bitmap) : Bitmap :=
  let bitmap := (List.range bitmapSize).foldl (fun b i => b.setIfInBounds i 0xFF) bitmap
  let bitmap := m.regions.foldl freeRegion bitmap
  let kPhysStart := virtToPhys kernelStart
  let kPhysEnd := virtToPhys kernelEnd
  let bitmap := setRegionStatus bitmap kPhysStart (kPhysEnd - kPhysStart) true
  setRegionStatus bitmap 0 0x4000 true

/-! ## What one region frees -/

namespace MemRegion

/-- The region's end as `setup_bitmap` computes it, in 64 bits. -/
def wrappedEnd (r : MemRegion) : Nat := (r.base.toNat + r.length.toNat) % 2 ^ 64

/-- `start_page`: the base rounded up, by a 32-bit sum. -/
def firstPage (r : MemRegion) : Nat := (r.base.toNat + 4095) % 2 ^ 32 / 4096

/-- `end_page`: the end rounded down.  An end at or beyond 4 GiB is clipped to 4 GiB and wraps
    to zero. -/
def lastPage (r : MemRegion) : Nat :=
  if 2 ^ 32 ≤ r.wrappedEnd then 0 else r.wrappedEnd / 4096

/-- `setup_bitmap` clears the bit of page `p` for this region. -/
def Frees (r : MemRegion) (p : Nat) : Prop :=
  r.base.toNat < 2 ^ 32 ∧ r.firstPage ≤ p ∧ p < r.lastPage

instance (r : MemRegion) : DecidablePred r.Frees :=
  fun _ => inferInstanceAs (Decidable (_ ∧ _))

/-- The whole extent of page `p` lies in the region. -/
def Covers (r : MemRegion) (p : Nat) : Prop :=
  r.base.toNat ≤ 4096 * p ∧ 4096 * p + 4096 ≤ r.base.toNat + r.length.toNat

instance (r : MemRegion) : DecidablePred r.Covers :=
  fun _ => inferInstanceAs (Decidable (_ ∧ _))

/-- The region begins inside the last page of the address space, after that page's first byte,
    and ends below 4 GiB. -/
def Sliver (r : MemRegion) : Prop :=
  0xFFFFF000 < r.base.toNat ∧ r.base.toNat + r.length.toNat < 2 ^ 32

/-- **What a region frees**, for a region that does not wrap in 64 bits: nothing when it reaches
    4 GiB; otherwise the pages it covers; and all pages but the last when it is a sliver, whose
    rounded-up base wraps to zero. -/
theorem frees_iff {r : MemRegion} (h : r.base.toNat + r.length.toNat ≤ 2 ^ 64) (p : Nat) :
    r.Frees p ↔ r.base.toNat + r.length.toNat < 2 ^ 32 ∧
      (r.Covers p ∨ (r.Sliver ∧ p < 0xFFFFF)) := by
  unfold Frees Covers Sliver firstPage lastPage wrappedEnd
  by_cases hbelow : r.base.toNat + r.length.toNat < 2 ^ 32
  · rw [Nat.mod_eq_of_lt (show r.base.toNat + r.length.toNat < 2 ^ 64 by omega), if_neg (by omega)]
    omega
  · have hzero : (if 2 ^ 32 ≤ (r.base.toNat + r.length.toNat) % 2 ^ 64 then 0
        else (r.base.toNat + r.length.toNat) % 2 ^ 64 / 4096) = 0 := by
      split <;> omega
    rw [hzero]
    omega

end MemRegion

/-- Some region of the map frees page `p`. -/
def MemoryMap.Frees (m : MemoryMap) (p : Nat) : Prop := ∃ r ∈ m.regions, r.Frees p

instance (m : MemoryMap) : DecidablePred m.Frees :=
  fun _ => inferInstanceAs (Decidable (∃ r ∈ m.regions, _))

/-- `free_regions` lists the whole of page `p` as available. -/
def MemoryMap.Covers (m : MemoryMap) (p : Nat) : Prop := ∃ r ∈ m.regions, r.Covers p

/-! ## What `setup_bitmap` computes -/

/-- The first loop leaves no page free. -/
theorem freeSet_setAll (b : Bitmap) :
    freeSet ((List.range bitmapSize).foldl (fun b i => b.setIfInBounds i 0xFF) b) = ∅ := by
  have hbyte : ∀ n, n ≤ bitmapSize → ∀ i, i < n →
      byteAt ((List.range n).foldl (fun b i => b.setIfInBounds i 0xFF) b) i = 0xFF := by
    intro n
    induction n with
    | zero => intro _ i hi; exact absurd hi (Nat.not_lt_zero i)
    | succ n ih =>
      intro hn i hi
      rw [List.range_succ, List.foldl_append, List.foldl_cons, List.foldl_nil,
        byteAt_setIfInBounds _ _ (Nat.lt_of_succ_le hn)]
      split
      · rfl
      · exact ih (Nat.le_of_succ_le hn) i (by omega)
  apply Set.eq_empty_iff_forall_notMem.mpr
  intro p hp
  have hlt : p / 8 < bitmapSize := div_lt_bitmapSize.mpr (lt_totalPages_of_mem_freeSet hp)
  exact not_mem_freeSet_of_ff (hbyte bitmapSize (Nat.le_refl _) _ hlt) hp

/-- One region of the map adds the pages it `Frees`. -/
theorem mem_freeSet_freeRegion (b : Bitmap) (r : MemRegion) (p : Nat) :
    p ∈ freeSet (freeRegion b r) ↔ r.Frees p ∨ p ∈ freeSet b := by
  have hbase : (r.base < 0x100000000) ↔ r.base.toNat < 2 ^ 32 := by
    rw [UInt64.lt_iff_toNat_lt]
    rfl
  have hgt : (r.base + r.length > 0x100000000) ↔ 2 ^ 32 < r.wrappedEnd := by
    rw [gt_iff_lt, UInt64.lt_iff_toNat_lt, UInt64.toNat_add]
    rfl
  rw [freeRegion]
  by_cases hlow : r.base.toNat < 2 ^ 32
  · -- the end of the range, clipped or not, is the region's `lastPage`
    have hend : endPage r.base.toUInt32
        (if r.base + r.length > 0x100000000 then 0x100000000 - r.base else r.length).toUInt32 false
        = r.lastPage := by
      simp only [endPage, MemRegion.lastPage, hgt, UInt64.toNat_toUInt32, Bool.false_eq_true,
        if_false, Nat.mod_eq_of_lt hlow]
      by_cases hclip : 2 ^ 32 < r.wrappedEnd
      · rw [if_pos hclip, if_pos (by omega), UInt64.toNat_sub]
        simp only [UInt64.reduceToNat]
        omega
      · rw [if_neg hclip]
        unfold MemRegion.wrappedEnd at hclip ⊢
        split <;> omega
    have hstart : startPage r.base.toUInt32 false = r.firstPage := by
      simp only [startPage, MemRegion.firstPage, UInt64.toNat_toUInt32, Bool.false_eq_true,
        if_false, Nat.mod_eq_of_lt hlow]
    rw [if_pos (hbase.mpr hlow), mem_freeSet_setRegionStatus, hstart, hend]
    by_cases hin : r.firstPage ≤ p ∧ p < r.lastPage
    · rw [if_pos hin]
      exact ⟨fun _ => Or.inl ⟨hlow, hin⟩, fun _ => rfl⟩
    · rw [if_neg hin]
      exact ⟨Or.inr, fun h => h.resolve_left (fun hf => hin hf.2)⟩
  · rw [if_neg (fun h => hlow (hbase.mp h))]
    exact ⟨Or.inr, fun h => h.resolve_left (fun hf => hlow hf.1)⟩

/-- The loop over `free_regions`. -/
theorem mem_freeSet_freeRegions (p : Nat) : ∀ (rs : List MemRegion) (b : Bitmap),
    p ∈ freeSet (rs.foldl freeRegion b) ↔ (∃ r ∈ rs, r.Frees p) ∨ p ∈ freeSet b := by
  intro rs
  induction rs with
  | nil => intro b; simp
  | cons r rs ih =>
    intro b
    rw [List.foldl_cons, ih, mem_freeSet_freeRegion]
    simp only [List.mem_cons, exists_eq_or_imp]
    exact or_left_comm.trans or_assoc.symm

/-- **The reservation of the kernel image reserves nothing**: `virt_to_phys(&kernel_start)` is
    `0x40100000`, and the end of the range wraps to the physical end of the image, below it. -/
theorem setRegionStatus_kernel (k : KernelEnd) (b : Bitmap) :
    setRegionStatus b (virtToPhys kernelStart) (virtToPhys k.addr - virtToPhys kernelStart) true
      = b := by
  have hlt := k.phys_lt
  have hgt := k.phys_gt
  have hs : (virtToPhys kernelStart).toNat = 0x40100000 := by decide
  apply eq_of_freeSet_eq
  apply Set.ext
  intro q
  have hempty : ¬ (startPage (virtToPhys kernelStart) true ≤ q ∧
      q < endPage (virtToPhys kernelStart) (virtToPhys k.addr - virtToPhys kernelStart) true) := by
    simp only [startPage, endPage, if_true, hs, UInt32.toNat_sub, k.virtToPhys_addr]
    omega
  rw [mem_freeSet_setRegionStatus, if_neg hempty]

/-- **What `setup_bitmap` computes**: the free pages are those some region frees, less the
    bottom 16 KiB, whatever the bitmap held before. -/
theorem mem_freeSet_setupBitmap (k : KernelEnd) (m : MemoryMap) (b : Bitmap) (p : Nat) :
    p ∈ freeSet (setupBitmap k.addr m b) ↔ 4 ≤ p ∧ m.Frees p := by
  have hlow : (startPage 0 true ≤ p ∧ p < endPage 0 0x4000 true) ↔ p < 4 := by
    have hstart : startPage 0 true = 0 := by decide
    have hend : endPage 0 0x4000 true = 4 := by decide
    omega
  rw [setupBitmap, mem_freeSet_setRegionStatus, setRegionStatus_kernel, mem_freeSet_freeRegions,
    freeSet_setAll]
  by_cases hp : p < 4
  · rw [if_pos (hlow.mpr hp)]
    simp only [Bool.true_eq_false, false_iff, not_and]
    omega
  · rw [if_neg (fun h => hp (hlow.mp h))]
    simp only [Set.mem_empty_iff_false, or_false]
    exact ⟨fun h => ⟨by omega, h⟩, fun h => h.2⟩

/-! ## Order and repetition -/

/-- **The bitmap is that of the set of regions**: maps that list the same regions, in any order and
    with any repetitions, leave the same bitmap, whatever it held before. -/
theorem setupBitmap_same_regions (k : KernelEnd) {m m' : MemoryMap} (b b' : Bitmap)
    (h : ∀ r, r ∈ m.regions ↔ r ∈ m'.regions) :
    setupBitmap k.addr m b = setupBitmap k.addr m' b' := by
  have hfrees : ∀ p, m.Frees p ↔ m'.Frees p :=
    fun p => exists_congr fun r => and_congr_left' (h r)
  apply eq_of_freeSet_eq
  apply Set.ext
  intro p
  rw [mem_freeSet_setupBitmap, mem_freeSet_setupBitmap, hfrees]

/-! ## Small machines, for the statements below -/

/-- A kernel image that ends at the physical address `0x140000`. -/
def smallKernel : KernelEnd := ⟨0xC0140000, by decide⟩

/-- The bitmap as the loader leaves it: `.bss` is zero. -/
def zeroBitmap : Bitmap := Vector.replicate bitmapSize 0

/-- One region of 16 MiB above the first megabyte. -/
def ramMap : MemoryMap := ⟨[⟨0x100000, 0x1000000⟩], by decide⟩

/-- One available byte in the middle of the last page below 4 GiB. -/
def sliverMap : MemoryMap := ⟨[⟨0xFFFFF001, 1⟩], by decide⟩

/-- One region from the first megabyte up to 4 GiB exactly. -/
def fullMap : MemoryMap := ⟨[⟨0x100000, 0xFFF00000⟩], by decide⟩

/-- Two regions that overlap, the second one up to the 4 GiB line. -/
def overlapMap : MemoryMap := ⟨[⟨0x100000, 0x1000000⟩, ⟨0x800000, 0xFF800000⟩], by decide⟩

/-- The same regions, the other way around and one of them twice. -/
def shuffledMap : MemoryMap :=
  ⟨[⟨0x800000, 0xFF800000⟩, ⟨0x100000, 0x1000000⟩, ⟨0x800000, 0xFF800000⟩], by decide⟩

theorem setupBitmap_same_regions_shuffled :
    setupBitmap smallKernel.addr overlapMap zeroBitmap
      = setupBitmap smallKernel.addr shuffledMap (Vector.replicate bitmapSize 0x55) := by
  refine setupBitmap_same_regions smallKernel zeroBitmap (Vector.replicate bitmapSize 0x55) ?_
  intro r
  simp only [overlapMap, shuffledMap, List.mem_cons, List.not_mem_nil]
  tauto

/-! ## The map and the free pages: soundness and completeness -/

/-- Every page left free is wholly available according to the memory map. -/
def FreesOnlyListed (k : KernelEnd) (m : MemoryMap) (b : Bitmap) : Prop :=
  ∀ p, p < totalPages → p ∈ freeSet (setupBitmap k.addr m b) → m.Covers p

/-- Every available page outside the bottom 16 KiB and the kernel image is left free. -/
def FreesAllListed (k : KernelEnd) (m : MemoryMap) (b : Bitmap) : Prop :=
  ∀ p, p < totalPages → m.Covers p → 4 ≤ p → ¬ k.Overlaps (4096 * p) →
    p ∈ freeSet (setupBitmap k.addr m b)

/-- **Soundness, exactly**: only listed pages are freed when no region is a sliver of the last
    page.  A sliver frees all pages but the last, which is harmless only when the other regions
    list all of these. -/
theorem freesOnlyListed_iff (k : KernelEnd) (m : MemoryMap) (b : Bitmap) (hm : m.Fits) :
    FreesOnlyListed k m b ↔
      (∀ r ∈ m.regions, ¬ r.Sliver) ∨ ∀ p, 4 ≤ p → p < 0xFFFFF → m.Covers p := by
  have hpages : totalPages = 1048576 := rfl
  constructor
  · intro h
    by_cases hsliver : ∃ r ∈ m.regions, r.Sliver
    · obtain ⟨r, hr, hs⟩ := hsliver
      refine Or.inr (fun p hp4 hp => h p (by omega) ?_)
      have hfrees : r.Frees p := (MemRegion.frees_iff (hm r hr) p).mpr ⟨hs.2, Or.inr ⟨hs, hp⟩⟩
      exact (mem_freeSet_setupBitmap k m b p).mpr ⟨hp4, r, hr, hfrees⟩
    · exact Or.inl (fun r hr hs => hsliver ⟨r, hr, hs⟩)
  · intro h p _ hfree
    obtain ⟨hp4, r, hr, hfrees⟩ := (mem_freeSet_setupBitmap k m b p).mp hfree
    obtain ⟨-, hcovers | ⟨hs, hp⟩⟩ := (MemRegion.frees_iff (hm r hr) p).mp hfrees
    · exact ⟨r, hr, hcovers⟩
    · rcases h with hnone | hall
      · exact absurd hs (hnone r hr)
      · exact hall p hp4 hp

theorem freesOnlyListed_ramMap : FreesOnlyListed smallKernel ramMap zeroBitmap := by
  refine (freesOnlyListed_iff smallKernel ramMap zeroBitmap (by decide)).mpr (Or.inl ?_)
  unfold MemRegion.Sliver
  decide

/-- The single available byte makes page 4 free. -/
theorem not_freesOnlyListed_sliverMap :
    sliverMap.Fits ∧ ¬ FreesOnlyListed smallKernel sliverMap zeroBitmap := by
  refine ⟨by decide, fun h => ?_⟩
  have hfree : 4 ∈ freeSet (setupBitmap smallKernel.addr sliverMap zeroBitmap) := by
    rw [mem_freeSet_setupBitmap]
    decide
  obtain ⟨r, hr, hcov⟩ := h 4 (by decide) hfree
  obtain rfl := List.mem_singleton.mp hr
  exact absurd hcov (by decide)

/-- **Completeness, exactly**: no available page is lost when every page of a region that reaches
    4 GiB is freed by another region as well. -/
theorem freesAllListed_iff (k : KernelEnd) (m : MemoryMap) (b : Bitmap) (hm : m.Fits) :
    FreesAllListed k m b ↔
      ∀ r ∈ m.regions, 2 ^ 32 ≤ r.base.toNat + r.length.toNat →
        ∀ p, p < totalPages → r.Covers p → 4 ≤ p → ¬ k.Overlaps (4096 * p) →
          ∃ r' ∈ m.regions, r'.base.toNat + r'.length.toNat < 2 ^ 32 ∧
            (r'.Covers p ∨ (r'.Sliver ∧ p < 0xFFFFF)) := by
  have hfree : ∀ p, 4 ≤ p → (p ∈ freeSet (setupBitmap k.addr m b) ↔
      ∃ r ∈ m.regions, r.base.toNat + r.length.toNat < 2 ^ 32 ∧
        (r.Covers p ∨ (r.Sliver ∧ p < 0xFFFFF))) := by
    intro p hp4
    rw [mem_freeSet_setupBitmap, MemoryMap.Frees, and_iff_right hp4]
    constructor
    · rintro ⟨r, hr, hf⟩
      exact ⟨r, hr, (MemRegion.frees_iff (hm r hr) p).mp hf⟩
    · rintro ⟨r, hr, hf⟩
      exact ⟨r, hr, (MemRegion.frees_iff (hm r hr) p).mpr hf⟩
  constructor
  · intro h r hr _ p hp hcov hp4 himg
    exact (hfree p hp4).mp (h p hp ⟨r, hr, hcov⟩ hp4 himg)
  · rintro h p hp ⟨r, hr, hcov⟩ hp4 himg
    rw [hfree p hp4]
    rcases Nat.lt_or_ge (r.base.toNat + r.length.toNat) (2 ^ 32) with hbelow | hreach
    · exact ⟨r, hr, hbelow, Or.inl hcov⟩
    · exact h r hr hreach p hp hcov hp4 himg

theorem freesAllListed_ramMap : FreesAllListed smallKernel ramMap zeroBitmap := by
  refine (freesAllListed_iff smallKernel ramMap zeroBitmap (by decide)).mpr ?_
  intro r hr hreach
  obtain rfl := List.mem_singleton.mp hr
  exact absurd hreach (by decide)

/-- Of 4095 MiB of memory that end at the 4 GiB line, not even page `0x50000` is free. -/
theorem not_freesAllListed_fullMap :
    fullMap.Fits ∧ ¬ FreesAllListed smallKernel fullMap zeroBitmap := by
  refine ⟨by decide, fun h => ?_⟩
  have hfree := h 0x50000 (by decide) ⟨_, List.mem_singleton.mpr rfl, by decide⟩ (by decide)
    (by decide)
  rw [mem_freeSet_setupBitmap] at hfree
  exact absurd hfree (by decide)

end MyOs.Paging
