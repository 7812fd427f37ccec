/-
  `map_page` without a frame, and with one that is too high.

  `alloc_frame` returns zero when no page is free, and nobody checks that.  Frame 0 becomes the table,
  and so does a frame that is not behind `KERNEL_OFFSET`.

  1. **No frame** (`mapPage_exhausted`): frame 0 is cleared and entered in the directory.
  2. **High frames** (`inKernelWindow_iff`): the kernel's window has the frames below 512 MiB.
  3. **When both go well** (`mapPage_failure_iff`): exactly when the first free page is one of them, or
     there is a table already and none is free.
-/
import MyOs.Paging.MapPage

namespace MyOs.Paging

open MyOs.Lib.Mmu MyOs.Lib.Stores

/-! ## No frame -/

/-- A call that needs a table and gets no frame leaves the memory as it was. -/
def FailsCleanly (tr : UInt32 → Option UInt32) (L : Boot.BootLayout) (virt phys flags : UInt32)
    (bitmap : Bitmap) (mem : PhysMem) : Prop :=
  present (entryAt mem L.directory (pdIndex virt)) = false →
    (allocFrame L.kernelEnd.addr bitmap).1 = 0 →
    ∃ bitmap', mapPage tr L.kernelEnd.addr L.bootPageDirectory virt phys flags bitmap mem
      = some (mem, bitmap')

section Exhausted

variable {tr : UInt32 → Option UInt32} {L : Boot.BootLayout} (hdir : Reached tr L.directory)
  (hzero : Reached tr 0) {virt : UInt32} {bitmap : Bitmap} {mem : PhysMem}

theorem directory_ne_zero (L : Boot.BootLayout) : L.directory ≠ 0 := by
  intro heq
  have hbounds := L.directory_bounds
  rw [heq] at hbounds
  exact absurd hbounds.1 (by decide)

include hdir hzero

/-- **Without a frame**, frame 0 becomes the table. -/
theorem mapPage_exhausted (phys flags : UInt32)
    (hfree : present (entryAt mem L.directory (pdIndex virt)) = false)
    (hnone : (allocFrame L.kernelEnd.addr bitmap).1 = 0) :
    ∃ mem', mapPage tr L.kernelEnd.addr L.bootPageDirectory virt phys flags bitmap mem
        = some (mem', (allocFrame L.kernelEnd.addr bitmap).2) ∧
      entryAt mem' L.directory (pdIndex virt) = tableEntry 0 flags ∧
      ∀ i < 1024, entryAt mem' 0 i = if i = ptIndex virt then phys ||| flags else 0 := by
  have haligned : PageAligned 0 := by decide
  have hne := directory_ne_zero L
  obtain ⟨hframe, -, -⟩ := tableEntry_eq haligned flags
  obtain ⟨mem₁, hnew, hempty, -⟩ := @newTable_reached tr mem L.directory hdir L.kernelEnd.addr bitmap
    (hnone ▸ hzero) _ (pdIndex_lt virt) flags
  rw [hnone] at hnew hempty
  have htable := @ensureTable_reached tr mem L.directory hdir _ (pdIndex_lt virt) L.kernelEnd.addr
    flags bitmap
  rw [hfree, Bool.not_false, if_pos rfl, hnew] at htable
  have hentry : entryAt (Function.update mem₁ (entryAddr L.directory (pdIndex virt))
      (tableEntry 0 flags)) L.directory (pdIndex virt) = tableEntry 0 flags := Function.update_self ..
  have hmap := @mapPage_reached tr mem L.directory hdir L.kernelEnd.addr virt phys flags bitmap _ _
    htable (by rw [hentry, hframe]; exact hzero)
  rw [hentry, hframe] at hmap
  refine ⟨_, (bootPageDirectory_eq L).symm ▸ hmap, ?_, fun i hi => ?_⟩
  · rw [entryAt_update haligned L.pageAligned_directory (ptIndex_lt virt) (pdIndex_lt virt),
      if_neg fun heq => hne heq.1]
    exact hentry
  · rw [entryAt_update haligned haligned (ptIndex_lt virt) hi,
      entryAt_update L.pageAligned_directory haligned (pdIndex_lt virt) hi,
      if_neg fun heq : (0 : UInt32) = L.directory ∧ _ => hne heq.1.symm, hempty i hi]
    simp only [true_and]

/-- So it is never clean. -/
theorem failsCleanly_iff (phys flags : UInt32) : FailsCleanly tr L virt phys flags bitmap mem ↔
    (present (entryAt mem L.directory (pdIndex virt)) = false →
      (allocFrame L.kernelEnd.addr bitmap).1 ≠ 0) := by
  refine ⟨fun h hfree hnone => ?_, fun h hfree hnone => absurd hnone (h hfree)⟩
  obtain ⟨bitmap', hclean⟩ := h hfree hnone
  obtain ⟨mem', hmap, hentry, -⟩ := mapPage_exhausted hdir hzero phys flags hfree hnone
  obtain ⟨rfl, -⟩ := Prod.mk.inj (Option.some.inj (hclean.symm.trans hmap))
  obtain ⟨-, hpresent, -⟩ := tableEntry_eq (show PageAligned 0 by decide) flags
  rw [hentry, hpresent] at hfree
  nomatch hfree

end Exhausted

/-- `alloc_frame` has a frame when a page is free. -/
theorem allocFrame_ne_zero_iff (k : KernelEnd) (b : Bitmap) :
    (allocFrame k.addr b).1 ≠ 0 ↔ ∃ p ∈ freeSet b, startIndex k.addr ≤ p := by
  rcases allocFrame_servesFirst (virtToPhys_ge k) b with ⟨p, hleast, hne, -⟩ | ⟨hempty, heq⟩
  · exact iff_of_true hne ⟨p, hleast.1.1, hleast.1.2⟩
  · refine iff_of_false (fun hne => hne (congrArg Prod.fst heq)) ?_
    rintro ⟨p, hfree, hstart⟩
    have hmem : p ∈ freeSet b ∩ Set.Ici (startIndex k.addr) := ⟨hfree, hstart⟩
    rw [hempty] at hmem
    nomatch hmem

/-! ## High frames -/

/-- The address that a frame is written through is in the kernel's window, and is no sum that has
    wrapped around. -/
def InKernelWindow (frame : UInt32) : Prop :=
  frame.toNat + kernelOffset.toNat < 2 ^ 32 ∧
    0xC0000000 ≤ frame + kernelOffset ∧ frame + kernelOffset < 0xE0000000

theorem inKernelWindow_iff (frame : UInt32) : InKernelWindow frame ↔ frame.toNat < 0x20000000 := by
  have hlt : frame.toNat < 2 ^ 32 := frame.toNat_lt
  rw [InKernelWindow, UInt32.le_iff_toNat_le, UInt32.lt_iff_toNat_lt, UInt32.toNat_add,
    show kernelOffset.toNat = 0xC0000000 from rfl]
  simp only [UInt32.reduceToNat]
  omega

/-- The frame that `alloc_frame` returns, if it has one, is in the window. -/
def ServesInWindow (L : Boot.BootLayout) (bitmap : Bitmap) : Prop :=
  (allocFrame L.kernelEnd.addr bitmap).1 ≠ 0 → InKernelWindow (allocFrame L.kernelEnd.addr bitmap).1

theorem servesInWindow_iff (L : Boot.BootLayout) (b : Bitmap) : ServesInWindow L b ↔
    ∀ p, IsLeast (freeSet b ∩ Set.Ici (startIndex L.kernelEnd.addr)) p → p < 0x20000 := by
  unfold ServesInWindow
  rw [inKernelWindow_iff]
  rcases allocFrame_servesFirst (virtToPhys_ge L.kernelEnd) b with
    ⟨p, hleast, hne, haddr, -⟩ | ⟨hempty, heq⟩
  · rw [haddr]
    constructor
    · intro hlow q hq
      have hpq := hleast.unique hq
      have hlow' := hlow hne
      omega
    · intro hlow _
      have hp := hlow p hleast
      omega
  · refine iff_of_true (fun hne => absurd (congrArg Prod.fst heq) hne) fun q hq => ?_
    rw [hempty] at hq
    nomatch hq.1

/-- All frames are, when the memory map has no page above 512 MiB. -/
theorem allocFrames_servesInWindow {m : MemoryMap} (hlow : ∀ p, m.Frees p → p < 0x20000)
    (L : Boot.BootLayout) (n : Nat) (b : Bitmap) :
    ServesInWindow L (allocFrames L.kernelEnd.addr n (setupBitmap L.kernelEnd.addr m b)).2 := by
  intro hne
  have hmem : (allocFrame L.kernelEnd.addr (allocFrames L.kernelEnd.addr n
      (setupBitmap L.kernelEnd.addr m b)).2).1
      ∈ (allocFrames L.kernelEnd.addr (n + 1) (setupBitmap L.kernelEnd.addr m b)).1 := by
    rw [allocFrames_add]
    exact List.mem_append_right _ (allocFrame_mem_allocFrames ..)
  obtain ⟨p, hfree, -, haddr⟩ := mem_allocFrames (virtToPhys_ge L.kernelEnd) hmem hne
  have hp := hlow p ((mem_freeSet_setupBitmap L.kernelEnd m b p).mp hfree).2
  rw [inKernelWindow_iff, haddr]
  omega

/-! ## When both go well -/

/-- **When a call fails cleanly, and writes in the window**: exactly when it needs no table or a page
    is free, and the first one that is free is below 512 MiB. -/
theorem mapPage_failure_iff {tr : UInt32 → Option UInt32} {L : Boot.BootLayout}
    (hdir : Reached tr L.directory) (hzero : Reached tr 0) (virt phys flags : UInt32)
    (bitmap : Bitmap) (mem : PhysMem) :
    FailsCleanly tr L virt phys flags bitmap mem ∧ ServesInWindow L bitmap ↔
      (present (entryAt mem L.directory (pdIndex virt)) = false →
        ∃ p ∈ freeSet bitmap, startIndex L.kernelEnd.addr ≤ p) ∧
      ∀ p, IsLeast (freeSet bitmap ∩ Set.Ici (startIndex L.kernelEnd.addr)) p → p < 0x20000 := by
  rw [failsCleanly_iff hdir hzero, allocFrame_ne_zero_iff, servesInWindow_iff]

/-- A free page in an empty directory. -/
theorem mapPage_failure_iff_free :
    FailsCleanly window Boot.smallLayout 0xA0000000 0x500000 0x3 zeroBitmap (fun _ => 0) ∧
      ServesInWindow Boot.smallLayout zeroBitmap := by
  have hstart : startIndex smallKernel.addr = 320 := by decide
  have hfree : 320 ∈ freeSet zeroBitmap := by
    rw [mem_freeSet, zeroBitmap, byteAt, Vector.getElem?_replicate]
    decide
  refine (mapPage_failure_iff (reached_window (by decide) (by decide))
    (reached_window (by decide) (by decide)) 0xA0000000 0x500000 0x3 zeroBitmap fun _ => 0).mpr
    ⟨fun _ => ⟨320, hfree, Nat.le_of_eq hstart⟩, fun p hp => ?_⟩
  have hle : p ≤ 320 := hp.2 ⟨hfree, Nat.le_of_eq hstart⟩
  omega

/-- No memory at all. -/
def noMap : MemoryMap := ⟨[], by decide⟩

/-- One page, at 1 GiB. -/
def highMap : MemoryMap := ⟨[⟨0x40000000, 0x1000⟩], by decide⟩

theorem highMap_frees (p : Nat) : highMap.Frees p ↔ p = 0x40000 := by
  have hfirst : MemRegion.firstPage ⟨0x40000000, 0x1000⟩ = 0x40000 := by decide
  have hlast : MemRegion.lastPage ⟨0x40000000, 0x1000⟩ = 0x40001 := by decide
  constructor
  · rintro ⟨r, hr, -, hge, hlt⟩
    obtain rfl := List.mem_singleton.mp hr
    rw [hfirst] at hge
    rw [hlast] at hlt
    omega
  · rintro rfl
    exact ⟨_, List.mem_singleton_self _, by decide⟩

/-- **Neither goes well**: without a free page the memory changes, and a frame at 1 GiB is written
    through address zero. -/
theorem not_mapPage_failure :
    (¬ ∀ (tr : UInt32 → Option UInt32) (L : Boot.BootLayout) (m : MemoryMap) (b : Bitmap) (n : Nat)
      (virt phys flags : UInt32) (mem : PhysMem), Reached tr L.directory → Reached tr 0 →
      FailsCleanly tr L virt phys flags
        (allocFrames L.kernelEnd.addr n (setupBitmap L.kernelEnd.addr m b)).2 mem) ∧
    ¬ ∀ (L : Boot.BootLayout) (m : MemoryMap) (b : Bitmap) (n : Nat),
      ServesInWindow L (allocFrames L.kernelEnd.addr n (setupBitmap L.kernelEnd.addr m b)).2 := by
  have hstart : startIndex Boot.smallLayout.kernelEnd.addr = 320 := by decide
  refine ⟨fun h => ?_, fun h => ?_⟩
  · have hwindow : Reached window Boot.smallLayout.directory := reached_window (by decide) (by decide)
    have hzero : Reached window 0 := reached_window (by decide) (by decide)
    have hclean := h window Boot.smallLayout noMap zeroBitmap 0 0xA0000000 0x500000 0x3 (fun _ => 0)
      hwindow hzero
    rw [failsCleanly_iff hwindow hzero] at hclean
    obtain ⟨p, hfree, -⟩ := (allocFrame_ne_zero_iff _ _).mp (hclean (show present 0 = false by decide))
    obtain ⟨-, r, hr, -⟩ := (mem_freeSet_setupBitmap smallKernel noMap zeroBitmap p).mp hfree
    nomatch hr
  · have hserves := h Boot.smallLayout highMap zeroBitmap 0
    rw [servesInWindow_iff] at hserves
    have hleast := hserves 0x40000 ⟨⟨?_, ?_⟩, ?_⟩
    · exact absurd hleast (by decide)
    · exact (mem_freeSet_setupBitmap smallKernel highMap zeroBitmap _).mpr
        ⟨by decide, (highMap_frees _).mpr rfl⟩
    · rw [hstart]
      decide
    · rintro q ⟨hq, -⟩
      obtain ⟨-, hfrees⟩ := (mem_freeSet_setupBitmap smallKernel highMap zeroBitmap q).mp hq
      exact Nat.le_of_eq ((highMap_frees q).mp hfrees).symm

end MyOs.Paging
