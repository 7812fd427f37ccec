/-
  From the boot information to frames.

  1. **Entries** (`covers_iff`): a page that a region covers is one whose bytes are all in an available
     entry of the memory map.
  2. **The bitmap** (`mem_freeSet_iff`): what `multiboot_shit` and `setup_bitmap` leave free.
  3. **The frames** (`frames_available`): what `alloc_frame` hands out from then on, and what it never
     does.
-/
import MyOs.Boot.MultibootTags
import MyOs.Paging.AllocRuns

namespace MyOs.Boot

open MyOs.Paging

/-! ## Entries -/

/-- The bytes of page `p` are all in the entry. -/
def MmapEntry.Spans (e : MmapEntry) (p : Nat) : Prop :=
  ∀ a, 4096 * p ≤ a → a < 4096 * (p + 1) → e.addr.toNat ≤ a ∧ a < e.addr.toNat + e.len.toNat

/-- An available entry that ends below 4 GiB has the whole page. -/
def Spanned (maps : List (List MmapEntry)) (p : Nat) : Prop :=
  ∃ es ∈ maps, ∃ e ∈ es, e.type = memoryAvailable ∧ e.addr.toNat + e.len.toNat < 2 ^ 32 ∧ e.Spans p

/-- No available entry ends beyond `2^64`, or begins behind the first byte of the last page below
    4 GiB. -/
def Usual (maps : List (List MmapEntry)) : Prop :=
  ∀ r ∈ availableRegions maps, r.base.toNat + r.length.toNat ≤ 2 ^ 64 ∧ ¬ r.Sliver

theorem spans_iff {e : MmapEntry} {p : Nat} : e.Spans p ↔ e.region.Covers p := by
  constructor
  · intro h
    have hfirst := h (4096 * p) (Nat.le_refl _) (by omega)
    have hlast := h (4096 * p + 4095) (by omega) (by omega)
    exact ⟨hfirst.1, show 4096 * p + 4096 ≤ e.addr.toNat + e.len.toNat by omega⟩
  · rintro ⟨hlo, hhi⟩ a hle hlt
    replace hlo : e.addr.toNat ≤ 4096 * p := hlo
    replace hhi : 4096 * p + 4096 ≤ e.addr.toNat + e.len.toNat := hhi
    omega

theorem mem_availableRegions {maps : List (List MmapEntry)} {r : MemRegion} :
    r ∈ availableRegions maps
      ↔ ∃ es ∈ maps, ∃ e ∈ es, e.type = memoryAvailable ∧ e.region = r := by
  simp only [availableRegions, available, List.mem_flatMap, List.mem_map, List.mem_filter,
    decide_eq_true_eq, and_assoc]

/-! ## The bitmap -/

variable {maps : List (List MmapEntry)} {m : MemoryMap}

/-- **What is free when the regions are those of the entries.** -/
theorem mem_freeSet_iff (k : KernelEnd) (b : Bitmap) (hm : m.regions = availableRegions maps)
    (husual : Usual maps) (p : Nat) :
    p ∈ freeSet (setupBitmap k.addr m b) ↔ 4 ≤ p ∧ Spanned maps p := by
  rw [mem_freeSet_setupBitmap, MemoryMap.Frees, hm]
  refine and_congr_right fun _ => ⟨?_, ?_⟩
  · rintro ⟨r, hr, hfrees⟩
    obtain ⟨hend, hsliver⟩ := husual r hr
    obtain ⟨hbelow, hcovers⟩ := (MemRegion.frees_iff hend p).mp hfrees
    obtain ⟨es, hes, e, he, htype, rfl⟩ := mem_availableRegions.mp hr
    refine ⟨es, hes, e, he, htype, hbelow, spans_iff.mpr ?_⟩
    exact hcovers.resolve_right fun h => hsliver h.1
  · rintro ⟨es, hes, e, he, htype, hbelow, hspans⟩
    have hr : e.region ∈ availableRegions maps := mem_availableRegions.mpr ⟨es, hes, e, he, htype, rfl⟩
    exact ⟨e.region, hr, (MemRegion.frees_iff (husual _ hr).1 p).mpr
      ⟨hbelow, .inl (spans_iff.mp hspans)⟩⟩

/-! ## The frames -/

/-- **Frames and the boot information.**  Well-formed boot information has at most 128 available
    entries, and none of them wraps or is a sliver of the last page.  Then `multiboot_shit` returns,
    and `setup_bitmap` makes of its regions a bitmap from which every run of `alloc_frame` and of
    reservations gets increasing frames.  Each of them is in an available entry, all its bytes, and
    neither in the bottom 16 KiB nor below the first page of the group of eight in which the kernel
    ends.  When `alloc_frame` returns zero, every page from there on that an available entry below
    4 GiB has was handed out or reserved. -/
theorem frames_available {I : BootInfo} (h : I.WellFormed maps)
    (hcount : (availableRegions maps).length ≤ maxMemRegions) (husual : Usual maps)
    (k : KernelEnd) (totalPages : UInt32) (bitmap : Bitmap) (ops : List BitmapOp)
    (hno : ∀ page, .setPageStatus page false ∉ ops) :
    ∃ n s, (∀ fuel, n ≤ fuel →
        multibootShit I multiboot2BootloaderMagic fuel (.initial totalPages) = some s) ∧
      ∃ hregions : s.regions.length ≤ maxMemRegions,
        let b := setupBitmap k.addr ⟨s.regions, hregions⟩ bitmap
        (frames k.addr b ops).Pairwise (· < ·) ∧
        (∀ f ∈ frames k.addr b ops, ∃ p, f.toNat = 4096 * p ∧ 4 ≤ p ∧ startIndex k.addr ≤ p ∧
          Spanned maps p) ∧
        ∀ pre post, ops = pre ++ .allocFrame :: post → frameAfter k.addr b pre = 0 →
          ∀ p, startIndex k.addr ≤ p → Spanned maps p →
            (∃ f ∈ frames k.addr b pre, f.toNat = 4096 * p) ∨
            ∃ page : Fin Paging.totalPages, page.val = p ∧ .setPageStatus page true ∈ pre := by
  obtain ⟨n, hn⟩ := h.run
  have hregions := regions_run maps totalPages
  have hk := virtToPhys_ge k
  have hfloor := (startIndex_bounds k).1
  refine ⟨n, _, fun fuel hfuel => hn fuel hfuel _, ?_, frames_increasing hk hno _, ?_, ?_⟩
  · rw [hregions]
    exact hcount
  · intro f hf
    obtain ⟨p, hfree, hstart, haddr⟩ := frames_free hk hno _ f hf
    obtain ⟨hlow, hspanned⟩ := (mem_freeSet_iff k bitmap hregions husual p).mp hfree
    exact ⟨p, haddr, hlow, hstart, hspanned⟩
  · intro pre post _ hzero p hstart hspanned
    refine frames_exhaust hk hzero p ?_ hstart
    exact (mem_freeSet_iff k bitmap hregions husual p).mpr ⟨by omega, hspanned⟩

/-- A memory-map tag with 16 MiB above the first megabyte. -/
def ramInfo : BootInfo := .ofWords fun i =>
  [56, 0, 6, 40, 24, 0, 0x100000, 0, 0x1000000, 0, 1, 0, 0, 8].getD i 0

theorem ramInfo_wellFormed : ramInfo.WellFormed [[⟨0x100000, 0x1000000, 1⟩]] := by
  refine ⟨by decide, ?_⟩
  have hmaps : [[⟨0x100000, 0x1000000, 1⟩]] = [(List.range 1).map fun k =>
      ramInfo.entry (8 + 16 + k * 24)] := by decide
  rw [hmaps]
  exact .mmap (by decide) (by decide) (by decide) (by decide)
    (.done (by decide) (by decide) (by decide))

theorem mem_frames_allocFrame {kernelEnd : UInt32} {b : Bitmap} (hne : (allocFrame kernelEnd b).1 ≠ 0)
    (ops : List BitmapOp) : (allocFrame kernelEnd b).1 ∈ frames kernelEnd b (.allocFrame :: ops) := by
  unfold frames
  dsimp only
  rw [if_neg hne]
  exact List.mem_cons_self

/-- There the first frame is one of that memory. -/
theorem frames_available_ramInfo : ∃ s, ∃ hregions : s.regions.length ≤ maxMemRegions,
    (∃ fuel, multibootShit ramInfo multiboot2BootloaderMagic fuel (.initial 0) = some s) ∧
    ∃ p, (allocFrame smallKernel.addr
      (setupBitmap smallKernel.addr ⟨s.regions, hregions⟩ zeroBitmap)).1.toNat = 4096 * p ∧
      Spanned [[⟨0x100000, 0x1000000, 1⟩]] p := by
  have husual : Usual [[⟨0x100000, 0x1000000, 1⟩]] := by
    intro r hr
    obtain rfl := List.mem_singleton.mp hr
    exact ⟨by decide, fun h => absurd h.1 (by decide)⟩
  obtain ⟨n, s, hrun, hregions, -, hframes, hzero⟩ := frames_available ramInfo_wellFormed (by decide)
    husual smallKernel 0 zeroBitmap [.allocFrame] (by simp)
  refine ⟨s, hregions, ⟨n, hrun n (Nat.le_refl n)⟩, ?_⟩
  have hspanned : Spanned [[⟨0x100000, 0x1000000, 1⟩]] 0x140 :=
    ⟨_, List.mem_singleton_self _, _, List.mem_singleton_self _, rfl, by decide,
      spans_iff.mpr ⟨by decide, by decide⟩⟩
  generalize setupBitmap smallKernel.addr ⟨s.regions, hregions⟩ zeroBitmap = b at *
  have hne : (allocFrame smallKernel.addr b).1 ≠ 0 := by
    intro heq
    rcases hzero [] [] rfl heq 0x140 (by decide) hspanned with ⟨f, hf, -⟩ | ⟨page, -, hpage⟩
    · exact absurd hf List.not_mem_nil
    · exact absurd hpage List.not_mem_nil
  obtain ⟨p, haddr, -, -, hp⟩ := hframes _ (mem_frames_allocFrame hne [])
  exact ⟨p, haddr, hp⟩

end MyOs.Boot
