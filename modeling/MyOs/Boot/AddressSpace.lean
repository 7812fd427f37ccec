/-
  The address space that `setup_paging` builds.

  1. **Where the stores land** (`setupPaging_eq_some`, `setupPaging_eq_none`): a table below
     `0x3FF000` is filled in place, the table in `0x3FF000` is filled in the VGA buffer instead,
     and a table from 4 MiB on faults.
  2. **What the memory holds then** (`read_slot`, `read_table`, `read_zero`, `read_shadowed`): the
     frames are distinct as long as they are not zero, so every entry of a table and of the
     directory has one value.
  3. **The mapping** (`setupPaging_maps`): with usable frames outside the kernel image, the kernel
     sees the first 512 MiB at `0xC0000000` and users see 1 GiB from 4 MiB on one to one.
-/
import MyOs.Boot.SetupPaging

namespace MyOs.Boot

open MyOs.Lib.Mmu MyOs.Lib.Stores MyOs.Paging

/-! ## The tables and their stores -/

theorem mem_tableStores {kernelPt userPt : List UInt32} {s : EntryStore} :
    s ∈ tableStores kernelPt userPt ↔
      ∃ i, i < 1024 ∧ ∃ t ∈ pageTables kernelPt userPt, t.fill i = s := by
  simp only [tableStores, List.mem_flatMap, List.mem_map, List.mem_range]

theorem mem_pageTables {kernelPt userPt : List UInt32} {t : PageTable} :
    t ∈ pageTables kernelPt userPt ↔
      (∃ j, j < 128 ∧ kernelTable kernelPt j = t) ∨
      ∃ j, j < 256 ∧ userTable userPt j = t := by
  simp only [pageTables, List.mem_append, List.mem_map, List.mem_range]

theorem mem_slotStores {directory : UInt32} {kernelPt userPt : List UInt32} {s : EntryStore} :
    s ∈ slotStores directory kernelPt userPt ↔
      (∃ t ∈ pageTables kernelPt userPt, t.enter directory = s) ∨
        s = ⟨directory, 1023, directory ||| 0x3⟩ := by
  rw [slotStores, List.mem_append, List.mem_append, List.mem_singleton]
  refine or_congr ?_ Iff.rfl
  constructor
  · rintro (hs | hs)
    · obtain ⟨j, hj, rfl⟩ := List.mem_map.mp hs
      exact ⟨_, mem_pageTables.mpr (Or.inr ⟨j, List.mem_range.mp hj, rfl⟩), rfl⟩
    · obtain ⟨j, hj, rfl⟩ := List.mem_map.mp hs
      exact ⟨_, mem_pageTables.mpr (Or.inl ⟨j, List.mem_range.mp hj, rfl⟩), rfl⟩
  · rintro ⟨t, ht, rfl⟩
    rcases mem_pageTables.mp ht with ⟨j, hj, rfl⟩ | ⟨j, hj, rfl⟩
    · exact Or.inr (List.mem_map_of_mem (List.mem_range.mpr hj))
    · exact Or.inl (List.mem_map_of_mem (List.mem_range.mpr hj))

/-- An array read index by index. -/
theorem map_getD_range {l : List UInt32} {n : Nat} (hlen : l.length = n) :
    (List.range n).map (fun j => l.getD j 0) = l := by
  subst hlen
  apply List.ext_getElem
  · rw [List.length_map, List.length_range]
  · intro j hj hj'
    rw [List.getElem_map, List.getElem_range, List.getD_eq_getElem l 0 hj']

theorem map_frame_pageTables {kernelPt userPt : List UInt32}
    (hkernel : kernelPt.length = kernelPageTables) (huser : userPt.length = userPageTables) :
    (pageTables kernelPt userPt).map PageTable.frame = kernelPt ++ userPt := by
  rw [pageTables, List.map_append, List.map_map, List.map_map]
  exact congrArg₂ (· ++ ·) (map_getD_range hkernel) (map_getD_range huser)

section Tables

variable (L : BootLayout) (m : MemoryMap) (b : Bitmap)

/-- The page tables of `setup_paging`. -/
def tables : List PageTable := pageTables (kernelPt L m b).1 (userPt L m b).1

theorem map_frame_tables : (tables L m b).map PageTable.frame = pageTableFrames L m b := by
  rw [tables, map_frame_pageTables, pageTableFrames_eq]
  · rw [kernelPt, allocFrames_length]
  · rw [userPt, allocFrames_length]

variable {L m b}

theorem frame_mem {t : PageTable} (ht : t ∈ tables L m b) : t.frame ∈ pageTableFrames L m b := by
  rw [← map_frame_tables]
  exact List.mem_map_of_mem ht

theorem pageAligned_table {t : PageTable} (ht : t ∈ tables L m b) : PageAligned t.frame :=
  pageAligned_frame L m b (frame_mem ht)

/-- The bounds of a table: its slot, the pages it maps, its flags. -/
theorem table_bounds {t : PageTable} (ht : t ∈ tables L m b) :
    t.slot < 1023 ∧ t.first + 1024 ≤ 0x40400 ∧ t.flags.toNat < 4096 := by
  rcases mem_pageTables.mp ht with ⟨j, hj, rfl⟩ | ⟨j, hj, rfl⟩
  · refine ⟨?_, ?_, show (0x3 : UInt32).toNat < 4096 by decide⟩
    · show j + 768 < 1023
      omega
    · show 1024 * j + 1024 ≤ 0x40400
      omega
  · refine ⟨?_, ?_, show (0x7 : UInt32).toNat < 4096 by decide⟩
    · show j + 1 < 1023
      omega
    · show 1024 * (j + 1) + 1024 ≤ 0x40400
      omega

/-- A slot belongs to one table. -/
theorem slot_inj {t t' : PageTable} (ht : t ∈ tables L m b) (ht' : t' ∈ tables L m b)
    (h : t.slot = t'.slot) : t = t' := by
  rcases mem_pageTables.mp ht with ⟨j, hj, rfl⟩ | ⟨j, hj, rfl⟩ <;>
    rcases mem_pageTables.mp ht' with ⟨j', hj', rfl⟩ | ⟨j', hj', rfl⟩
  · obtain rfl : j = j' := Nat.add_right_cancel h
    rfl
  · have hslot : j + 768 = j' + 1 := h
    omega
  · have hslot : j + 1 = j' + 768 := h
    omega
  · obtain rfl : j = j' := Nat.add_right_cancel h
    rfl

/-- **Distinct tables have distinct frames**, unless the frame is the zero of a failure. -/
theorem frame_inj {t t' : PageTable} (ht : t ∈ tables L m b) (ht' : t' ∈ tables L m b)
    (h : t.frame = t'.frame) (hne : t.frame ≠ 0) : t = t' := by
  have hpairs : (tables L m b).Pairwise fun t t' => t.frame = t'.frame → t.frame = 0 := by
    have hincreasing := allocFrames_pairwise (virtToPhys_ge L.kernelEnd)
      (kernelPageTables + userPageTables) (setupBitmap L.kernelEnd.addr m b)
    rw [← pageTableFrames, ← map_frame_tables, List.pairwise_map] at hincreasing
    refine hincreasing.imp (fun {t t'} hlt heq => ?_)
    by_contra hzero
    have hlt := (hlt (heq ▸ hzero)).2
    rw [heq] at hlt
    omega
  have hsymm : Std.Symm fun t t' : PageTable => t.frame = t'.frame → t.frame = 0 :=
    ⟨fun t t' hzero heq => heq.trans (hzero heq.symm)⟩
  by_contra htt
  exact hne (hpairs.forall ht ht' htt h)

/-- A frame that is not zero lies above the boot pages. -/
theorem directory_lt_frame {f : UInt32} (hf : f ∈ pageTableFrames L m b) (hne : f ≠ 0) :
    L.directory.toNat + 0x10000 ≤ f.toNat ∧ 0x100000 ≤ f.toNat := by
  have hbitmap : bitmapSize = 131072 := rfl
  obtain ⟨p, -, hstart, haddr⟩ := frame_free L m b hf hne
  obtain ⟨hlow, -, hend⟩ := startIndex_bounds L.kernelEnd
  obtain ⟨-, -, hbehind⟩ := L.directory_bounds
  omega

/-! ## Where the stores land -/

/-- The frame the stores to the table in `frame` land in: `0x3FF000 + KERNEL_OFFSET` is the page of
    the VGA buffer. -/
def home (frame : UInt32) : UInt32 := if frame.toNat = 0x3FF000 then 0xB8000 else frame

theorem home_of_ne {f : UInt32} (h : f.toNat ≠ 0x3FF000) : home f = f := if_neg h

theorem pageAligned_home {f : UInt32} (hf : PageAligned f) : PageAligned (home f) := by
  unfold home
  split
  · decide
  · exact hf

/-- The physical address of the store, and the value. -/
def EntryStore.phys (s : EntryStore) : UInt32 × UInt32 :=
  (entryAddr (home s.table) s.index, s.entry)

theorem phys_fill_userTable (userPt : List UInt32) (i j : Nat) :
    ((userTable userPt j).fill i).phys
      = (entryAddr (home (userPt.getD j 0)) i, frameAddr (1024 * (j + 1) + i) ||| 0x7) := rfl

theorem store_cases {s : EntryStore} (hs : s ∈ stores L m b) :
    (∃ i, i < 1024 ∧ ∃ t ∈ tables L m b, t.fill i = s) ∨
      (∃ t ∈ tables L m b, t.enter L.directory = s) ∨
      s = ⟨L.directory, 1023, L.directory ||| 0x3⟩ := by
  rcases List.mem_append.mp hs with h | h
  · exact Or.inl (mem_tableStores.mp h)
  · exact Or.inr (mem_slotStores.mp h)

theorem fill_mem_stores {t : PageTable} (ht : t ∈ tables L m b) {i : Nat} (hi : i < 1024) :
    t.fill i ∈ stores L m b :=
  List.mem_append_left _ (mem_tableStores.mpr ⟨i, hi, t, ht, rfl⟩)

theorem enter_mem_stores {t : PageTable} (ht : t ∈ tables L m b) :
    t.enter L.directory ∈ stores L m b :=
  List.mem_append_right _ (mem_slotStores.mpr (Or.inl ⟨t, ht, rfl⟩))

theorem own_mem_stores : ⟨L.directory, 1023, L.directory ||| 0x3⟩ ∈ stores L m b :=
  List.mem_append_right _ (mem_slotStores.mpr (Or.inr rfl))

/-- Every store is to an entry of a page-aligned table. -/
theorem store_wf {s : EntryStore} (hs : s ∈ stores L m b) :
    PageAligned s.table ∧ s.index < 1024 := by
  rcases store_cases hs with ⟨i, hi, t, ht, rfl⟩ | ⟨t, ht, rfl⟩ | rfl
  · exact ⟨pageAligned_table ht, hi⟩
  · exact ⟨L.pageAligned_directory, by have hslot := (table_bounds ht).1; show t.slot < 1024; omega⟩
  · exact ⟨L.pageAligned_directory, show 1023 < 1024 by decide⟩

/-- Two stores hit the same word when they land in the same frame at the same index. -/
theorem phys_eq_iff {s : EntryStore} (hs : s ∈ stores L m b) {table : UInt32} {i : Nat}
    (htable : PageAligned table) (hi : i < 1024) :
    s.phys.1 = entryAddr table i ↔ home s.table = table ∧ s.index = i :=
  entryAddr_inj (pageAligned_home (store_wf hs).1) htable (store_wf hs).2 hi

/-- No frame lands in the directory. -/
theorem home_ne_directory {f : UInt32} (hf : f ∈ pageTableFrames L m b) :
    home f ≠ L.directory := by
  obtain ⟨hlow, -, -⟩ := L.directory_bounds
  intro h
  by_cases hshadow : f.toNat = 0x3FF000
  · rw [home, if_pos hshadow] at h
    rw [← h] at hlow
    exact absurd hlow (by decide)
  · rw [home_of_ne hshadow] at h
    by_cases hz : f = 0
    · rw [← h, hz, UInt32.toNat_zero] at hlow
      omega
    · have hgt := (directory_lt_frame hf hz).1
      rw [h] at hgt
      omega

theorem home_directory : home L.directory = L.directory := by
  obtain ⟨-, hhigh, -⟩ := L.directory_bounds
  exact home_of_ne (by omega)

/-- A frame above the first megabyte is home only to its own stores. -/
theorem eq_of_home_eq {f f' : UInt32} (h : home f' = f) (hf : 0x100000 ≤ f.toNat) : f' = f := by
  by_cases hshadow : f'.toNat = 0x3FF000
  · rw [home, if_pos hshadow] at h
    rw [← h] at hf
    exact absurd hf (by decide)
  · rwa [home_of_ne hshadow] at h

/-- No store lands in the frame `0x3FF000`. -/
theorem home_ne_shadowed (f : UInt32) : home f ≠ 0x3FF000 := by
  intro h
  by_cases hshadow : f.toNat = 0x3FF000
  · rw [home, if_pos hshadow] at h
    exact absurd h (by decide)
  · rw [home_of_ne hshadow] at h
    exact hshadow (congrArg UInt32.toNat h)

theorem bootTranslate_home {table : UInt32} {i : Nat} (mem : PhysMem) (htable : PageAligned table)
    (hi : i < 1024) (hlt : table.toNat < 0x400000) :
    bootTranslate L mem (entryAddr (table + kernelOffset) i) = some (entryAddr (home table) i) := by
  by_cases hshadow : table.toNat = 0x3FF000
  · rw [home, if_pos hshadow]
    exact bootTranslate_frame_vga L mem htable hi hshadow
  · rw [home_of_ne hshadow]
    unfold PageAligned at htable
    exact bootTranslate_frame L mem htable hi (by omega)

end Tables

/-- The memory `setup_paging` leaves. -/
def setupMemory (L : BootLayout) (m : MemoryMap) (b : Bitmap) (mem : PhysMem) : PhysMem :=
  storeAll mem ((stores L m b).map EntryStore.phys)

/-- **No fault** when all frames lie below 4 MiB. -/
theorem setupPaging_eq_some {L : BootLayout} {m : MemoryMap} {b : Bitmap} (mem₀ mem : PhysMem)
    (hbelow : ∀ f ∈ pageTableFrames L m b, f.toNat < 0x400000) :
    setupPaging (bootTranslate L mem₀) L m b mem
      = some (setupMemory L m b mem, (userPt L m b).2) := by
  have htr : ∀ s ∈ stores L m b, bootTranslate L mem₀ (entryAddr (s.table + kernelOffset) s.index)
      = some (entryAddr (home s.table) s.index) := by
    intro s hs
    obtain ⟨-, hhigh, -⟩ := L.directory_bounds
    refine bootTranslate_home mem₀ (store_wf hs).1 (store_wf hs).2 ?_
    rcases store_cases hs with ⟨i, -, t, ht, rfl⟩ | ⟨t, -, rfl⟩ | rfl
    · exact hbelow _ (frame_mem ht)
    · show L.directory.toNat < 0x400000
      omega
    · show L.directory.toNat < 0x400000
      omega
  rw [setupPaging_eq]
  exact congrArg (Option.map _) (storeAllVia_eq_some htr)

/-- **A fault** when some frame lies at or above 4 MiB. -/
theorem setupPaging_eq_none {L : BootLayout} {m : MemoryMap} {b : Bitmap} (mem₀ mem : PhysMem)
    {f : UInt32} (hf : f ∈ pageTableFrames L m b) (hge : 0x400000 ≤ f.toNat) :
    setupPaging (bootTranslate L mem₀) L m b mem = none := by
  rw [← map_frame_tables] at hf
  obtain ⟨t, ht, rfl⟩ := List.mem_map.mp hf
  rw [setupPaging_eq]
  cases hstores : storeAllVia (bootTranslate L mem₀) mem ((stores L m b).map EntryStore.virt) with
  | none => rfl
  | some mem' =>
    have hsome := isSome_of_storeAllVia hstores (t.fill 0).virt
      (List.mem_map_of_mem (fill_mem_stores ht (by decide)))
    rw [show bootTranslate L mem₀ (t.fill 0).virt.1 = none from
      bootTranslate_frame_none L mem₀ (pageAligned_table ht) (show 0 < 1024 by decide) hge] at hsome
    nomatch hsome

/-! ## What the memory holds then -/

section Reads

variable {L : BootLayout} {m : MemoryMap} {b : Bitmap} (mem : PhysMem)

/-- A word holds the entry of its stores when these agree. -/
theorem read_of_agree {s : EntryStore} (hs : s ∈ stores L m b) {table : UInt32}
    (hhome : home s.table = table)
    (hagree : ∀ s' ∈ stores L m b, home s'.table = table → s'.index = s.index →
      s'.entry = s.entry) : setupMemory L m b mem (entryAddr table s.index) = s.entry := by
  subst hhome
  refine storeAll_of_agree (List.mem_map_of_mem hs) ?_
  intro w hw heq
  obtain ⟨s', hs', rfl⟩ := List.mem_map.mp hw
  obtain ⟨htable, hindex⟩ :=
    (phys_eq_iff hs' (pageAligned_home (store_wf hs).1) (store_wf hs).2).mp heq
  exact hagree s' hs' htable hindex

/-- A word without a store is unchanged. -/
theorem read_of_ne {table : UInt32} {i : Nat} (htable : PageAligned table) (hi : i < 1024)
    (hne : ∀ s ∈ stores L m b, home s.table = table → s.index ≠ i) :
    setupMemory L m b mem (entryAddr table i) = mem (entryAddr table i) := by
  refine storeAll_of_ne ?_
  intro w hw heq
  obtain ⟨s, hs, rfl⟩ := List.mem_map.mp hw
  obtain ⟨hhome, hindex⟩ := (phys_eq_iff hs htable hi).mp heq
  exact hne s hs hhome hindex

/-- The slot of a table holds the table's frame and flags. -/
theorem read_slot {t : PageTable} (ht : t ∈ tables L m b) :
    setupMemory L m b mem (entryAddr L.directory t.slot) = t.frame ||| t.flags := by
  refine read_of_agree mem (enter_mem_stores ht) home_directory ?_
  intro s hs hhome hindex
  rcases store_cases hs with ⟨i, -, t', ht', rfl⟩ | ⟨t', ht', rfl⟩ | rfl
  · exact absurd hhome (home_ne_directory (frame_mem ht'))
  · rw [slot_inj ht' ht hindex]
  · have hslot := (table_bounds ht).1
    have hindex : 1023 = t.slot := hindex
    omega

/-- The last slot holds the directory itself. -/
theorem read_own :
    setupMemory L m b mem (entryAddr L.directory 1023) = L.directory ||| 0x3 := by
  refine read_of_agree mem own_mem_stores home_directory ?_
  intro s hs hhome hindex
  rcases store_cases hs with ⟨i, -, t, ht, rfl⟩ | ⟨t, ht, rfl⟩ | rfl
  · exact absurd hhome (home_ne_directory (frame_mem ht))
  · have hslot := (table_bounds ht).1
    have hindex : t.slot = 1023 := hindex
    omega
  · rfl

/-- The other slots are unchanged. -/
theorem read_other_slot {i : Nat} (hi : i < 1024) (hslot : ∀ t ∈ tables L m b, t.slot ≠ i)
    (hlast : i ≠ 1023) :
    setupMemory L m b mem (entryAddr L.directory i) = mem (entryAddr L.directory i) := by
  refine read_of_ne mem L.pageAligned_directory hi ?_
  intro s hs hhome hindex
  rcases store_cases hs with ⟨k, -, t, ht, rfl⟩ | ⟨t, ht, rfl⟩ | rfl
  · exact home_ne_directory (frame_mem ht) hhome
  · exact hslot t ht hindex
  · exact hlast hindex.symm

/-- A table in a frame of its own holds its entries. -/
theorem read_table {t : PageTable} (ht : t ∈ tables L m b) (hne : t.frame ≠ 0)
    (hshadow : t.frame.toNat ≠ 0x3FF000) {i : Nat} (hi : i < 1024) :
    setupMemory L m b mem (entryAddr t.frame i) = frameAddr (t.first + i) ||| t.flags := by
  obtain ⟨hdir, hlow⟩ := directory_lt_frame (frame_mem ht) hne
  refine read_of_agree mem (fill_mem_stores ht hi) (home_of_ne hshadow) ?_
  intro s hs hhome hindex
  have htable := eq_of_home_eq hhome hlow
  rcases store_cases hs with ⟨k, -, t', ht', rfl⟩ | ⟨t', ht', rfl⟩ | rfl
  · obtain rfl : k = i := hindex
    rw [frame_inj ht ht' htable.symm hne]
  · have hdirectory : L.directory = t.frame := htable
    rw [← hdirectory] at hdir
    omega
  · have hdirectory : L.directory = t.frame := htable
    rw [← hdirectory] at hdir
    omega

/-- The frame `0x3FF000` keeps what it held, also when it is a table. -/
theorem read_shadowed {i : Nat} (hi : i < 1024) :
    setupMemory L m b mem (entryAddr 0x3FF000 i) = mem (entryAddr 0x3FF000 i) :=
  read_of_ne mem (by decide) hi (fun s _ hhome _ => home_ne_shadowed s.table hhome)

/-- The last table. -/
theorem pageTables_eq_append (kernelPt userPt : List UInt32) :
    ∃ init, pageTables kernelPt userPt = init ++ [userTable userPt 255] := by
  refine ⟨(List.range kernelPageTables).map (kernelTable kernelPt) ++
    (List.range 255).map (userTable userPt), ?_⟩
  rw [pageTables, show userPageTables = 255 + 1 from rfl, List.range_succ (n := 255),
    List.map_append, List.map_singleton, List.append_assoc]

/-- **Failed allocations share the frame zero**: when the last call fails, what page zero holds is
    the last table, written after all others of the same round. -/
theorem read_zero (hzero : (userPt L m b).1.getD 255 0 = 0) {i : Nat} (hi : i < 1024) :
    setupMemory L m b mem (entryAddr 0 i) = frameAddr (1024 * (255 + 1) + i) ||| 0x7 := by
  obtain ⟨init, hinit⟩ := pageTables_eq_append (kernelPt L m b).1 (userPt L m b).1
  obtain ⟨before, after, hsplit⟩ := List.append_of_mem (List.mem_range.mpr hi)
  have hafter : i ∉ after := by
    have hnodup := List.nodup_range (n := 1024)
    rw [hsplit] at hnodup
    exact (List.nodup_cons.mp (List.nodup_append.mp hnodup).2.1).1
  -- what is stored after entry `i` of the last table
  let post := (after.flatMap fun i =>
      (pageTables (kernelPt L m b).1 (userPt L m b).1).map (PageTable.fill i)) ++
    slotStores L.directory (kernelPt L m b).1 (userPt L m b).1
  have hstores : ∃ pre, stores L m b = pre ++ (userTable (userPt L m b).1 255).fill i :: post := by
    refine ⟨before.flatMap (fun i =>
      (pageTables (kernelPt L m b).1 (userPt L m b).1).map (PageTable.fill i)) ++
        init.map (PageTable.fill i), ?_⟩
    rw [stores, setupStores, tableStores, hsplit, List.flatMap_append, List.flatMap_cons, hinit]
    simp only [post, hinit, List.map_append, List.map_cons, List.map_nil, List.append_assoc,
      List.cons_append, List.nil_append]
  obtain ⟨pre, hstores⟩ := hstores
  have hphys : ((userTable (userPt L m b).1 255).fill i).phys
      = (entryAddr 0 i, frameAddr (1024 * (255 + 1) + i) ||| 0x7) := by
    rw [phys_fill_userTable, hzero, home_of_ne (show (0 : UInt32).toNat ≠ 0x3FF000 by decide)]
  rw [setupMemory, hstores, List.map_append, List.map_cons, hphys]
  refine storeAll_last (fun w hw heq => ?_)
  obtain ⟨s, hs, rfl⟩ := List.mem_map.mp hw
  have hmem : s ∈ stores L m b := by
    rw [hstores]
    exact List.mem_append_right _ (List.mem_cons_of_mem _ hs)
  obtain ⟨hhome, hindex⟩ := (phys_eq_iff hmem (by decide) hi).mp heq
  rcases List.mem_append.mp hs with hs | hs
  · obtain ⟨k, hk, hs⟩ := List.mem_flatMap.mp hs
    obtain ⟨t, -, rfl⟩ := List.mem_map.mp hs
    have hki : k = i := hindex
    exact hafter (hki ▸ hk)
  · obtain ⟨hlow, -, -⟩ := L.directory_bounds
    have hdirectory : home L.directory = 0 := by
      rcases mem_slotStores.mp hs with ⟨t, -, rfl⟩ | rfl
      · exact hhome
      · exact hhome
    rw [home_directory] at hdirectory
    rw [hdirectory, UInt32.toNat_zero] at hlow
    omega

end Reads

/-! ## The mapping -/

/-- The frames can all be used: no call failed, all are reached through the boot tables, and none
    overlaps the kernel image. -/
def UsableFrames (L : BootLayout) (m : MemoryMap) (b : Bitmap) : Prop :=
  ∀ f ∈ pageTableFrames L m b, f ≠ 0 ∧ f.toNat < 0x3FF000 ∧ ¬ L.kernelEnd.Overlaps f.toNat

/-- What `setup_paging` is to make of the memory `mem`. -/
structure AddressSpace (L : BootLayout) (mem mem' : PhysMem) : Prop where
  /-- The kernel's window: the first 512 MiB. -/
  kernel : ∀ virt : UInt32, 0xC0000000 ≤ virt → virt < 0xE0000000 →
    ∃ t, walk mem' L.directory virt = some t ∧ t.phys = virt - 0xC0000000 ∧
      t.isWritable = true ∧ t.isUser = false
  /-- The users' window: 1 GiB from 4 MiB on, one to one. -/
  user : ∀ virt : UInt32, 0x00400000 ≤ virt → virt < 0x40400000 →
    ∃ t, walk mem' L.directory virt = some t ∧ t.phys = virt ∧
      t.isWritable = true ∧ t.isUser = true
  /-- The directory maps itself. -/
  own : mem' (entryAddr L.directory 1023) = L.directory ||| 0x3
  /-- The other entries are unchanged. -/
  other : ∀ i, i < 1024 → ¬ (1 ≤ i ∧ i ≤ 256) → ¬ (768 ≤ i ∧ i ≤ 895) → i ≠ 1023 →
    mem' (entryAddr L.directory i) = mem (entryAddr L.directory i)

section Mapping

variable {L : BootLayout} {m : MemoryMap} {b : Bitmap} (mem : PhysMem)

theorem present_flags {t : PageTable} (ht : t ∈ tables L m b) :
    present t.flags = true ∧ writable t.flags = true := by
  rcases mem_pageTables.mp ht with ⟨j, -, rfl⟩ | ⟨j, -, rfl⟩
  · show present 0x3 = true ∧ writable 0x3 = true
    decide
  · show present 0x7 = true ∧ writable 0x7 = true
    decide

/-- **The walk through one table**, in a frame of its own. -/
theorem walk_table {t : PageTable} (ht : t ∈ tables L m b) (hne : t.frame ≠ 0)
    (hshadow : t.frame.toNat ≠ 0x3FF000) {virt : UInt32} (hslot : pdIndex virt = t.slot) :
    ∃ tr, walk (setupMemory L m b mem) L.directory virt = some tr ∧
      tr.phys.toNat = 4096 * (t.first + ptIndex virt) + virt.toNat % 4096 ∧
      tr.isWritable = true ∧ tr.isUser = user t.flags := by
  obtain ⟨-, hfirst, hflags⟩ := table_bounds ht
  obtain ⟨hpresent, hwritable⟩ := present_flags ht
  have hindex := ptIndex_lt virt
  have htable := pageAligned_table ht
  have hpage := pageAligned_frameAddr (show t.first + ptIndex virt < 0x100000 by omega)
  refine ⟨_, walk_of_flags htable hpage hflags hflags (hslot ▸ read_slot mem ht)
    (read_table mem ht hne hshadow hindex) hpresent hpresent, ?_, ?_, ?_⟩
  · rw [toNat_page_add hpage, toNat_frameAddr (by omega)]
  · rw [Translation.isWritable, writable_or htable hflags, writable_or hpage hflags, hwritable]
    rfl
  · rw [Translation.isUser, user_or htable hflags, user_or hpage hflags, Bool.and_self]

/-- **The address space**: with usable frames `setup_paging` does not fault, and builds what it is
    to build, whatever the memory and the directory held. -/
theorem setupPaging_maps (L : BootLayout) (m : MemoryMap) (b : Bitmap) (mem₀ mem : PhysMem)
    (hframes : UsableFrames L m b) :
    ∃ mem' b', setupPaging (bootTranslate L mem₀) L m b mem = some (mem', b') ∧
      AddressSpace L mem mem' := by
  have hbelow : ∀ f ∈ pageTableFrames L m b, f.toNat < 0x400000 :=
    fun f hf => Nat.lt_trans (hframes f hf).2.1 (by decide)
  refine ⟨_, _, setupPaging_eq_some mem₀ mem hbelow, ?_, ?_, read_own mem, ?_⟩
  · intro virt hlo hhi
    rw [UInt32.le_iff_toNat_le] at hlo
    rw [UInt32.lt_iff_toNat_lt] at hhi
    simp only [UInt32.reduceToNat] at hlo hhi
    -- the table of the window's slot
    have hj : virt.toNat / 0x400000 - 768 < 128 := by omega
    have ht : kernelTable (kernelPt L m b).1 (virt.toNat / 0x400000 - 768) ∈ tables L m b :=
      mem_pageTables.mpr (Or.inl ⟨_, hj, rfl⟩)
    obtain ⟨hne, hlt, -⟩ := hframes _ (frame_mem ht)
    have hslot : pdIndex virt = virt.toNat / 0x400000 - 768 + 768 := by
      rw [pdIndex_eq]
      omega
    obtain ⟨tr, hwalk, hphys, hw, hu⟩ := walk_table mem ht hne (Nat.ne_of_lt hlt) hslot
    refine ⟨tr, hwalk, ?_, hw, hu.trans (show user 0x3 = false by decide)⟩
    apply UInt32.toNat_inj.mp
    show _ = (virtToPhys virt).toNat
    rw [hphys, toNat_virtToPhys hlo, ptIndex_eq]
    show 4096 * (1024 * (virt.toNat / 0x400000 - 768) + _) + _ = _
    omega
  · intro virt hlo hhi
    rw [UInt32.le_iff_toNat_le] at hlo
    rw [UInt32.lt_iff_toNat_lt] at hhi
    simp only [UInt32.reduceToNat] at hlo hhi
    have hj : virt.toNat / 0x400000 - 1 < 256 := by omega
    have ht : userTable (userPt L m b).1 (virt.toNat / 0x400000 - 1) ∈ tables L m b :=
      mem_pageTables.mpr (Or.inr ⟨_, hj, rfl⟩)
    obtain ⟨hne, hlt, -⟩ := hframes _ (frame_mem ht)
    have hslot : pdIndex virt = virt.toNat / 0x400000 - 1 + 1 := by
      rw [pdIndex_eq]
      omega
    obtain ⟨tr, hwalk, hphys, hw, hu⟩ := walk_table mem ht hne (Nat.ne_of_lt hlt) hslot
    refine ⟨tr, hwalk, ?_, hw, hu.trans (show user 0x7 = true by decide)⟩
    apply UInt32.toNat_inj.mp
    rw [hphys, ptIndex_eq]
    show 4096 * (1024 * (virt.toNat / 0x400000 - 1 + 1) + _) + _ = _
    omega
  · intro i hi huser hkernel hlast
    refine read_other_slot mem hi (fun t ht hslot => ?_) hlast
    rcases mem_pageTables.mp ht with ⟨j, hj, rfl⟩ | ⟨j, hj, rfl⟩
    · have hslot : j + 768 = i := hslot
      omega
    · have hslot : j + 1 = i := hslot
      omega

end Mapping

/-- 16 MiB of memory are enough. -/
theorem usableFrames_ramMap : UsableFrames smallLayout ramMap zeroBitmap := by
  have hstart : startIndex smallLayout.kernelEnd.addr = 320 := by decide
  have hfirst : MemRegion.firstPage ⟨0x100000, 0x1000000⟩ = 0x100 := by decide
  have hlast : MemRegion.lastPage ⟨0x100000, 0x1000000⟩ = 0x1100 := by decide
  have hcard : 384 ≤ (freePages smallLayout ramMap 0x3FF).card := by
    have hsub : Finset.Ico 320 704 ⊆ freePages smallLayout ramMap 0x3FF := by
      intro p hp
      rw [Finset.mem_Ico] at hp
      rw [freePages, Finset.mem_filter, Finset.mem_Ico]
      exact ⟨by omega, _, List.mem_singleton.mpr rfl, by decide, by omega, by omega⟩
    calc 384 = (Finset.Ico 320 704).card := (Nat.card_Ico 320 704).symm
      _ ≤ _ := Finset.card_le_card hsub
  intro f hf
  obtain ⟨hne, hlt⟩ := (frames_below_iff smallLayout ramMap zeroBitmap 0x3FF).mpr hcard f hf
  refine ⟨hne, hlt, fun hoverlap => ?_⟩
  obtain ⟨p, -, hp, haddr⟩ := frame_free smallLayout ramMap zeroBitmap hf hne
  have himage : f.toNat < 0x140000 := hoverlap.1
  omega

theorem setupPaging_maps_ramMap : ∃ mem' b',
    setupPaging (bootTranslate smallLayout fun _ => 0) smallLayout ramMap zeroBitmap (fun _ => 0)
      = some (mem', b') ∧ AddressSpace smallLayout (fun _ => 0) mem' :=
  setupPaging_maps smallLayout ramMap zeroBitmap (fun _ => 0) (fun _ => 0) usableFrames_ramMap

end MyOs.Boot
