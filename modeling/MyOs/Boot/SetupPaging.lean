/-
  `setup_paging`: the page tables the kernel runs on.

  1. **Program**: `setupPaging` takes 384 frames from `alloc_frame`, fills them with two nests of
     loops through `frame + KERNEL_OFFSET` and enters them in the page directory.  A store whose
     address does not translate faults: no result.
  2. **The frames** (`framesReachable_iff`): `alloc_frame` is never checked and the boot tables map
     only the frames below `0x3FF000`, so all frames are usable exactly when 384 pages are free
     between the start index and page `0x3FF`.
  3. **One list of stores** (`setupPaging_eq`): each store writes one entry of one table.

  The addresses are translated with the mapping in force at the call, which the processor may keep
  until `setup_paging` reloads `%cr3` at its end.  The bitmap and the arrays `kernel_pt` and
  `user_pt` are values here: they lie in `.bss` before the last 32 KiB of the image, where no
  frame of `alloc_frame` can be.
-/
import Mathlib.Order.Interval.Finset.Nat
import MyOs.Boot.Start
import MyOs.Paging.AllocRuns

namespace MyOs.Boot

open MyOs.Lib MyOs.Lib.Mmu MyOs.Lib.Stores MyOs.Paging

/-! ## The program -/

/-- `kernel_page_tables`. -/
abbrev kernelPageTables : Nat := 128

/-- `user_page_tables`. -/
abbrev userPageTables : Nat := 256

/-- `setup_paging`, up to the reload of `%cr3`: the memory and the bitmap it leaves, or `none`
    when a store faults. -/
def setupPaging (tr : UInt32 → Option UInt32) (L : BootLayout) (m : MemoryMap) (bitmap : Bitmap)
    (mem : PhysMem) : Option (PhysMem × Bitmap) := do
  let bitmap := setupBitmap L.kernelEnd.addr m bitmap
  let pageDirectory := L.bootPageDirectory
  let kernelPt := allocFrames L.kernelEnd.addr kernelPageTables bitmap
  let userPt := allocFrames L.kernelEnd.addr userPageTables kernelPt.2
  let mem ← (List.range 1024).foldlM (fun mem i => do
    let mem ← (List.range kernelPageTables).foldlM (fun mem j =>
      let kernelPtVirt := kernelPt.1.getD j 0 + kernelOffset
      storeVia tr mem
        (entryAddr kernelPtVirt i, UInt32.ofNat (j * 0x400000 + i * 0x1000) ||| 0x3)) mem
    (List.range userPageTables).foldlM (fun mem j =>
      let userPtVirt := userPt.1.getD j 0 + kernelOffset
      storeVia tr mem
        (entryAddr userPtVirt i, UInt32.ofNat ((j + 1) * 0x400000 + i * 0x1000) ||| 0x7)) mem) mem
  let mem ← (List.range userPageTables).foldlM (fun mem i =>
    storeVia tr mem (entryAddr pageDirectory (i + 1), userPt.1.getD i 0 ||| 0x7)) mem
  let mem ← (List.range kernelPageTables).foldlM (fun mem i =>
    storeVia tr mem (entryAddr pageDirectory (i + 768), kernelPt.1.getD i 0 ||| 0x3)) mem
  let mem ← storeVia tr mem (entryAddr pageDirectory 1023, (pageDirectory - kernelOffset) ||| 0x3)
  return (mem, userPt.2)

/-! ## The 384 frames -/

/-- The frames of `kernel_pt`, and the bitmap behind their allocation. -/
def kernelPt (L : BootLayout) (m : MemoryMap) (bitmap : Bitmap) : List UInt32 × Bitmap :=
  allocFrames L.kernelEnd.addr kernelPageTables (setupBitmap L.kernelEnd.addr m bitmap)

/-- The frames of `user_pt`, and the bitmap `setup_paging` leaves. -/
def userPt (L : BootLayout) (m : MemoryMap) (bitmap : Bitmap) : List UInt32 × Bitmap :=
  allocFrames L.kernelEnd.addr userPageTables (kernelPt L m bitmap).2

/-- All frames, in the order of the calls. -/
def pageTableFrames (L : BootLayout) (m : MemoryMap) (bitmap : Bitmap) : List UInt32 :=
  (allocFrames L.kernelEnd.addr (kernelPageTables + userPageTables)
    (setupBitmap L.kernelEnd.addr m bitmap)).1

theorem pageTableFrames_eq (L : BootLayout) (m : MemoryMap) (b : Bitmap) :
    pageTableFrames L m b = (kernelPt L m b).1 ++ (userPt L m b).1 :=
  congrArg Prod.fst (allocFrames_add ..)

/-- The pages below `B` that `alloc_frame` can hand out. -/
def freePages (L : BootLayout) (m : MemoryMap) (B : Nat) : Finset Nat :=
  (Finset.Ico (startIndex L.kernelEnd.addr) B).filter m.Frees

theorem mem_freePages {L : BootLayout} {m : MemoryMap} (b : Bitmap) {B p : Nat} :
    p ∈ freePages L m B ↔ p ∈ freeSet (setupBitmap L.kernelEnd.addr m b) ∧
      startIndex L.kernelEnd.addr ≤ p ∧ p < B := by
  obtain ⟨hstart, -, -⟩ := startIndex_bounds L.kernelEnd
  rw [freePages, Finset.mem_filter, Finset.mem_Ico, mem_freeSet_setupBitmap]
  constructor
  · rintro ⟨⟨hlo, hhi⟩, hfrees⟩
    exact ⟨⟨by omega, hfrees⟩, hlo, hhi⟩
  · rintro ⟨⟨-, hfrees⟩, hlo, hhi⟩
    exact ⟨⟨hlo, hhi⟩, hfrees⟩

/-- There are no more of them than pages from the start index on. -/
theorem card_freePages_le (L : BootLayout) (m : MemoryMap) (B : Nat) :
    (freePages L m B).card ≤ B - startIndex L.kernelEnd.addr := by
  rw [← Nat.card_Ico]
  exact Finset.card_le_card (Finset.filter_subset _ _)

section Frames

variable (L : BootLayout) (m : MemoryMap) (b : Bitmap)

theorem pageTableFrames_length : (pageTableFrames L m b).length = 384 := allocFrames_length ..

theorem pageTableFrames_allocs : ∃ free', FirstFit.Allocs (startIndex L.kernelEnd.addr)
    (freeSet (setupBitmap L.kernelEnd.addr m b)) ((pageTableFrames L m b).map framePage) free' :=
  ⟨_, allocFrames_allocs (virtToPhys_ge L.kernelEnd) _ _⟩

/-- Every frame is page-aligned. -/
theorem pageAligned_frame {f : UInt32} (hf : f ∈ pageTableFrames L m b) : PageAligned f :=
  allocFrames_mod (virtToPhys_ge L.kernelEnd) hf

/-- A frame is a free page from the start index on. -/
theorem frame_free {f : UInt32} (hf : f ∈ pageTableFrames L m b) (hne : f ≠ 0) :
    ∃ p, m.Frees p ∧ startIndex L.kernelEnd.addr ≤ p ∧ f.toNat = 4096 * p := by
  obtain ⟨p, hfree, hstart, haddr⟩ := mem_allocFrames (virtToPhys_ge L.kernelEnd) hf hne
  exact ⟨p, ((mem_freeSet_setupBitmap L.kernelEnd m b p).mp hfree).2, hstart, haddr⟩

/-- **When the frames are below a bound**: exactly when enough pages are free below it. -/
theorem frames_below_iff (B : Nat) :
    (∀ f ∈ pageTableFrames L m b, f ≠ 0 ∧ f.toNat < 4096 * B) ↔ 384 ≤ (freePages L m B).card := by
  obtain ⟨free', hallocs⟩ := pageTableFrames_allocs L m b
  have hcount := hallocs.all_below_iff (fun p => mem_freePages (m := m) b (p := p) (B := B))
  rw [List.length_map, pageTableFrames_length] at hcount
  rw [← hcount, List.forall_mem_map]
  refine forall₂_congr (fun f hf => ?_)
  constructor
  · rintro ⟨hne, hlt⟩
    exact ⟨f.toNat / 4096, framePage_eq_some hne, by omega⟩
  · rintro ⟨p, hp, hlt⟩
    have haddr := allocFrames_aligned (virtToPhys_ge L.kernelEnd) _ _ f hf p hp
    refine ⟨?_, by omega⟩
    rintro rfl
    nomatch hp

/-- A frame is mapped to itself below `0x3FF000`, and nowhere else. -/
theorem bootTranslate_frame_iff (mem : PhysMem) {f : UInt32} (hf : PageAligned f) :
    bootTranslate L mem (f + kernelOffset) = some f ↔ f.toNat < 0x3FF000 := by
  have hzero : ∀ t : UInt32, entryAddr t 0 = t := fun t => UInt32.add_zero t
  have hat := toNat_entryAddr_offset (i := 0) hf (by decide)
  constructor
  · intro h
    by_contra hge
    rw [← hzero (f + kernelOffset)] at h
    unfold PageAligned at hf
    rcases (show f.toNat = 0x3FF000 ∨ 0x400000 ≤ f.toNat by omega) with heq | hhigh
    · rw [bootTranslate_frame_vga L mem hf (by decide) heq, hzero] at h
      have hval := congrArg UInt32.toNat (Option.some.inj h)
      simp only [UInt32.reduceToNat] at hval
      omega
    · rw [bootTranslate_frame_none L mem hf (by decide) hhigh] at h
      nomatch h
  · intro hlt
    have h := bootTranslate_frame L mem hf (show 0 < 1024 by decide) hlt
    rwa [hzero, hzero] at h

/-- Every frame is nonzero and is filled through an address that the boot tables map to it. -/
def FramesReachable (mem : PhysMem) : Prop :=
  ∀ f ∈ pageTableFrames L m b, f ≠ 0 ∧ bootTranslate L mem (f + kernelOffset) = some f

/-- **The frames, exactly**: `setup_paging` gets and reaches all its frames when 384 pages below
    page `0x3FF` are free, from the start index on. -/
theorem framesReachable_iff (mem : PhysMem) :
    FramesReachable L m b mem ↔ 384 ≤ (freePages L m 0x3FF).card := by
  rw [← frames_below_iff L m b 0x3FF]
  refine forall₂_congr (fun f hf => and_congr_right (fun _ => ?_))
  exact bootTranslate_frame_iff L mem (pageAligned_frame L m b hf)

end Frames

/-- `.bss` from `0xC0110000` on, the boot directory at `0xC0114000`. -/
def smallLayout : BootLayout where
  kernelEnd := smallKernel
  bssStart := 0xC0110000
  bootPageDirectory := 0xC0114000
  aligned := by decide
  higherHalf := by decide
  bss_le := by decide
  mapped := by decide
  bitmap_behind := by decide

/-- Memory from 4 MiB on: enough of it, but none that the boot tables reach. -/
def highMap : MemoryMap := ⟨[⟨0x400000, 0x1000000⟩], by decide⟩

theorem not_framesReachable_highMap :
    ¬ FramesReachable smallLayout highMap zeroBitmap (fun _ => 0) := by
  intro h
  have hlen := pageTableFrames_length smallLayout highMap zeroBitmap
  obtain ⟨f, hf⟩ := List.exists_mem_of_length_pos (by rw [hlen]; decide)
  obtain ⟨hne, hmapped⟩ := h f hf
  have hlt := (bootTranslate_frame_iff smallLayout (fun _ => 0)
    (pageAligned_frame smallLayout highMap zeroBitmap hf)).mp hmapped
  obtain ⟨p, ⟨r, hr, -, hfirst, -⟩, -, haddr⟩ := frame_free smallLayout highMap zeroBitmap hf hne
  obtain rfl := List.mem_singleton.mp hr
  rw [show MemRegion.firstPage ⟨0x400000, 0x1000000⟩ = 0x400 by decide] at hfirst
  omega

/-! ## The stores -/

/-- One store of `setup_paging`: entry `index` of the table in the frame `table`, reached at
    `table + KERNEL_OFFSET`. -/
structure EntryStore where
  table : UInt32
  index : Nat
  entry : UInt32

/-- The address the store is made to, and the value. -/
def EntryStore.virt (s : EntryStore) : UInt32 × UInt32 :=
  (entryAddr (s.table + kernelOffset) s.index, s.entry)

/-- A page table of `setup_paging`: its frame, its slot in the directory, the first page it maps,
    and the flags of its entries and of its slot. -/
structure PageTable where
  frame : UInt32
  slot : Nat
  first : Nat
  flags : UInt32

/-- Entry `i` of the table. -/
def PageTable.fill (i : Nat) (t : PageTable) : EntryStore :=
  ⟨t.frame, i, frameAddr (t.first + i) ||| t.flags⟩

/-- The table's entry in the directory. -/
def PageTable.enter (directory : UInt32) (t : PageTable) : EntryStore :=
  ⟨directory, t.slot, t.frame ||| t.flags⟩

/-- `kernel_pt[j]` maps the pages from `1024 * j` on, at slot `768 + j`. -/
def kernelTable (kernelPt : List UInt32) (j : Nat) : PageTable :=
  ⟨kernelPt.getD j 0, j + 768, 1024 * j, 0x3⟩

/-- `user_pt[j]` maps the pages from `1024 * (j + 1)` on, at slot `j + 1`. -/
def userTable (userPt : List UInt32) (j : Nat) : PageTable :=
  ⟨userPt.getD j 0, j + 1, 1024 * (j + 1), 0x7⟩

/-- All tables, in the order of the allocations. -/
def pageTables (kernelPt userPt : List UInt32) : List PageTable :=
  (List.range kernelPageTables).map (kernelTable kernelPt) ++
    (List.range userPageTables).map (userTable userPt)

/-- The stores of the nest of loops: the tables entry by entry. -/
def tableStores (kernelPt userPt : List UInt32) : List EntryStore :=
  (List.range 1024).flatMap fun i => (pageTables kernelPt userPt).map (PageTable.fill i)

/-- The stores into the directory. -/
def slotStores (directory : UInt32) (kernelPt userPt : List UInt32) : List EntryStore :=
  (List.range userPageTables).map (fun j => (userTable userPt j).enter directory) ++
    (List.range kernelPageTables).map (fun j => (kernelTable kernelPt j).enter directory) ++
    [⟨directory, 1023, directory ||| 0x3⟩]

/-- The stores of `setup_paging`. -/
def setupStores (directory : UInt32) (kernelPt userPt : List UInt32) : List EntryStore :=
  tableStores kernelPt userPt ++ slotStores directory kernelPt userPt

/-- The `int` arithmetic of the entries, as page numbers. -/
theorem ofNat_eq_frameAddr (j i : Nat) :
    UInt32.ofNat (j * 0x400000 + i * 0x1000) = frameAddr (1024 * j + i) := by
  apply UInt32.toNat_inj.mp
  rw [frameAddr, UInt32.toNat_mul, UInt32.toNat_ofNat', UInt32.toNat_ofNat']
  simp only [UInt32.reduceToNat]
  omega

/-- The directory, too, is reached at its frame plus `KERNEL_OFFSET`. -/
theorem directory_add (L : BootLayout) : L.directory + kernelOffset = L.bootPageDirectory :=
  UInt32.sub_add_cancel _ _

theorem virt_fill_kernelTable (kernelPt : List UInt32) (i j : Nat) :
    ((kernelTable kernelPt j).fill i).virt = (entryAddr (kernelPt.getD j 0 + kernelOffset) i,
      UInt32.ofNat (j * 0x400000 + i * 0x1000) ||| 0x3) := by
  rw [ofNat_eq_frameAddr]
  rfl

theorem virt_fill_userTable (userPt : List UInt32) (i j : Nat) :
    ((userTable userPt j).fill i).virt = (entryAddr (userPt.getD j 0 + kernelOffset) i,
      UInt32.ofNat ((j + 1) * 0x400000 + i * 0x1000) ||| 0x7) := by
  rw [ofNat_eq_frameAddr]
  rfl

theorem virt_enter_kernelTable (L : BootLayout) (kernelPt : List UInt32) (j : Nat) :
    ((kernelTable kernelPt j).enter L.directory).virt
      = (entryAddr L.bootPageDirectory (j + 768), kernelPt.getD j 0 ||| 0x3) := by
  rw [← directory_add]
  rfl

theorem virt_enter_userTable (L : BootLayout) (userPt : List UInt32) (j : Nat) :
    ((userTable userPt j).enter L.directory).virt
      = (entryAddr L.bootPageDirectory (j + 1), userPt.getD j 0 ||| 0x7) := by
  rw [← directory_add]
  rfl

/-- The stores of `setup_paging` on the memory map `m`. -/
def stores (L : BootLayout) (m : MemoryMap) (b : Bitmap) : List EntryStore :=
  setupStores L.directory (kernelPt L m b).1 (userPt L m b).1

/-- **`setup_paging` is one list of stores.** -/
theorem setupPaging_eq (tr : UInt32 → Option UInt32) (L : BootLayout) (m : MemoryMap) (b : Bitmap)
    (mem : PhysMem) :
    setupPaging tr L m b mem =
      (storeAllVia tr mem ((stores L m b).map EntryStore.virt)).map
        fun mem => (mem, (userPt L m b).2) := by
  have hlast : (⟨L.directory, 1023, L.directory ||| 0x3⟩ : EntryStore).virt
      = (entryAddr L.bootPageDirectory 1023, (L.bootPageDirectory - kernelOffset) ||| 0x3) := by
    rw [← directory_add, UInt32.add_sub_cancel]
    rfl
  -- the stores in the order of the source: two loops over tables, two over slots, one entry
  have hstores : (stores L m b).map EntryStore.virt
      = ((List.range 1024).flatMap fun i =>
          ((List.range kernelPageTables).map fun j =>
            (entryAddr ((kernelPt L m b).1.getD j 0 + kernelOffset) i,
              UInt32.ofNat (j * 0x400000 + i * 0x1000) ||| 0x3)) ++
          ((List.range userPageTables).map fun j =>
            (entryAddr ((userPt L m b).1.getD j 0 + kernelOffset) i,
              UInt32.ofNat ((j + 1) * 0x400000 + i * 0x1000) ||| 0x7))) ++
        (((List.range userPageTables).map fun i =>
          (entryAddr L.bootPageDirectory (i + 1), (userPt L m b).1.getD i 0 ||| 0x7)) ++
        ((List.range kernelPageTables).map fun i =>
          (entryAddr L.bootPageDirectory (i + 768), (kernelPt L m b).1.getD i 0 ||| 0x3)) ++
        [(entryAddr L.bootPageDirectory 1023, (L.bootPageDirectory - kernelOffset) ||| 0x3)]) := by
    simp only [stores, setupStores, tableStores, slotStores, pageTables, List.map_append,
      List.map_flatMap, List.map_map, Function.comp_def, virt_fill_kernelTable,
      virt_fill_userTable, virt_enter_kernelTable, virt_enter_userTable, List.map_cons,
      List.map_nil, hlast]
  rw [hstores]
  simp only [setupPaging, foldlM_storeVia, Option.bind_eq_bind, ← storeAllVia_append,
    foldlM_storeAllVia]
  simp only [storeAllVia_append, storeAllVia_singleton, Option.map_eq_bind, Option.bind_assoc]
  rfl

end MyOs.Boot
