/-
  `_start` and `setGdt`: the page tables the kernel boots on.

  1. **Layout**: `boot_page_directory`, `boot_page_table1` and `boot_page_table2` are three pages
     in a row in `.bss`, which the loader fills with zero (`loadBss`).
  2. **Program**: `start` is the code of `_start` up to the switch to paging.  Its first loop
     fills `boot_page_table1`; the second computes the entries of `boot_page_table2` and has no
     store.  `setGdt` later clears directory entry 0 through the mapping (`setGdt_start`).
  3. **The boot mapping** (`bootTranslate`): from `0xC0000000` on 1023 pages of physical memory,
     then the VGA page, and nothing else.  A frame filled through `frame + KERNEL_OFFSET` is
     reached when it lies below `0x3FF000`; the frame `0x3FF000` is shadowed by the VGA page, and
     every later one faults.

  The other writes of the boot code (the stack, the GDT, variables of the kernel) go neither to the
  boot pages nor behind the image and are left out.
-/
import MyOs.Lib.Mmu
import MyOs.Lib.Stores
import MyOs.Link
import MyOs.Paging.Bitmap

namespace MyOs.Boot

open MyOs.Lib.Mmu MyOs.Lib.Stores

/-! ## The layout of `.bss` -/

/-- What the linker decides about `.bss`: where it begins, and where in it the three boot pages
    lie.  They come before the page bitmap (the objects of `boot/` are linked before those of
    `libraries/`), and in the memory that the boot tables map one to one. -/
structure BootLayout where
  kernelEnd : KernelEnd
  bssStart : UInt32
  /-- `boot_page_directory`. -/
  bootPageDirectory : UInt32
  aligned : PageAligned bootPageDirectory
  higherHalf : 0xC0100000 ≤ bssStart.toNat
  bss_le : bssStart.toNat ≤ bootPageDirectory.toNat
  mapped : bootPageDirectory.toNat + 3 * 4096 ≤ 0xC03FF000
  bitmap_behind : bootPageDirectory.toNat + 3 * 4096 + Paging.bitmapSize ≤ kernelEnd.addr.toNat

namespace BootLayout

variable (L : BootLayout)

/-- `boot_page_directory - 0xC0000000`. -/
def directory : UInt32 := virtToPhys L.bootPageDirectory

/-- `boot_page_table1 - 0xC0000000`. -/
def table1 : UInt32 := virtToPhys (L.bootPageDirectory + 4096)

/-- `boot_page_table2 - 0xC0000000`. -/
def table2 : UInt32 := virtToPhys (L.bootPageDirectory + 8192)

theorem toNat_bootPageDirectory : L.bootPageDirectory.toNat = 0xC0000000 + L.directory.toNat := by
  have hhigher := L.higherHalf
  have hbss := L.bss_le
  rw [directory, toNat_virtToPhys (by omega)]
  omega

theorem toNat_table1 : L.table1.toNat = L.directory.toNat + 0x1000 := by
  have hdir := L.toNat_bootPageDirectory
  have hmapped := L.mapped
  have hsum : (L.bootPageDirectory + 4096).toNat = L.bootPageDirectory.toNat + 4096 := by
    rw [UInt32.toNat_add]
    simp only [UInt32.reduceToNat]
    omega
  rw [table1, toNat_virtToPhys (by omega), hsum]
  omega

theorem toNat_table2 : L.table2.toNat = L.directory.toNat + 0x2000 := by
  have hdir := L.toNat_bootPageDirectory
  have hmapped := L.mapped
  have hsum : (L.bootPageDirectory + 8192).toNat = L.bootPageDirectory.toNat + 8192 := by
    rw [UInt32.toNat_add]
    simp only [UInt32.reduceToNat]
    omega
  rw [table2, toNat_virtToPhys (by omega), hsum]
  omega

/-- The boot pages lie above the first megabyte and below the page of the VGA buffer. -/
theorem directory_bounds :
    0x100000 ≤ L.directory.toNat ∧ L.directory.toNat + 0x3000 ≤ 0x3FF000 ∧
      L.directory.toNat + 0x3000 + Paging.bitmapSize ≤ L.kernelEnd.phys := by
  have hdir := L.toNat_bootPageDirectory
  have hhigher := L.higherHalf
  have hbss := L.bss_le
  have hmapped := L.mapped
  have hbehind := L.bitmap_behind
  have hend := L.kernelEnd.addr_toNat
  omega

theorem pageAligned_directory : PageAligned L.directory := by
  have haligned := L.aligned
  have hdir := L.toNat_bootPageDirectory
  unfold PageAligned at haligned ⊢
  omega

theorem pageAligned_table1 : PageAligned L.table1 := by
  have haligned := L.pageAligned_directory
  have htable := L.toNat_table1
  unfold PageAligned at haligned ⊢
  omega

theorem pageAligned_table2 : PageAligned L.table2 := by
  have haligned := L.pageAligned_directory
  have htable := L.toNat_table2
  unfold PageAligned at haligned ⊢
  omega

end BootLayout

/-! ## The program -/

/-- The loader fills `.bss` with zero. -/
def loadBss (L : BootLayout) (mem : PhysMem) : PhysMem := fun a =>
  if virtToPhys L.bssStart ≤ a ∧ a < virtToPhys L.kernelEnd.addr then 0 else mem a

/-- The registers of the two loops of `_start`, and the memory; `%ecx` counts the rounds. -/
structure StartState where
  edi : UInt32
  esi : UInt32
  edx : UInt32
  mem : PhysMem

/-- One round of the first loop. -/
def loop1 (s : StartState) : StartState :=
  let edx := s.esi ||| 0x003
  { edi := s.edi + 4, esi := s.esi + 4096, edx, mem := Function.update s.mem s.edi edx }

/-- One round of the second loop: the first one without its `movl %edx, (%edi)`. -/
def loop2 (s : StartState) : StartState :=
  let edx := s.esi ||| 0x003
  { edi := s.edi + 4, esi := s.esi + 4096, edx, mem := s.mem }

/-- The stores of `_start` behind its loops. -/
def directoryStores (L : BootLayout) : List (UInt32 × UInt32) :=
  [(entryAddr L.table1 1023, 0x000B8000 ||| 0x003),
   (entryAddr L.directory 0, L.table1 + 0x003),
   (entryAddr L.directory 768, L.table1 + 0x003),
   (entryAddr L.directory 1, L.table2 + 0x003),
   (entryAddr L.directory 769, L.table2 + 0x003)]

/-- `_start`, up to the load of `%cr3` with `boot_page_directory - 0xC0000000`. -/
def start (L : BootLayout) (mem : PhysMem) : PhysMem :=
  let s : StartState := { edi := L.table1, esi := 0, edx := 0, mem }
  let s := loop1^[1024] s
  let s := loop2^[1024] { s with edi := L.table2 }
  storeAll s.mem (directoryStores L)

/-- The store that `setGdt` makes itself: it unmaps the identity-mapped area, through the higher half. -/
def setGdt (L : BootLayout) (mem : PhysMem) : Option PhysMem :=
  storeVia (translateVirt mem L.directory) mem (L.bootPageDirectory + 0, 0)

/-- The memory `setup_paging` starts from, for the memory `mem` the loader left. -/
def bootMemory (L : BootLayout) (mem : PhysMem) : PhysMem :=
  Function.update (start L (loadBss L mem)) (entryAddr L.directory 0) 0

/-- The translation in force when `setup_paging` starts. -/
def bootTranslate (L : BootLayout) (mem : PhysMem) (virt : UInt32) : Option UInt32 :=
  translateVirt (bootMemory L mem) L.directory virt

/-! ## What the loops store -/

/-- The entries the first loop has stored after `n` rounds. -/
def loop1Stores (L : BootLayout) (n : Nat) : List (UInt32 × UInt32) :=
  (List.range n).map fun i => (entryAddr L.table1 i, frameAddr i ||| 0x003)

/-- The first loop maps page `i` in entry `i`. -/
theorem loop1_iterate (L : BootLayout) (edx : UInt32) (mem : PhysMem) : ∀ n,
    (loop1^[n] { edi := L.table1, esi := 0, edx, mem }).edi = entryAddr L.table1 n ∧
    (loop1^[n] { edi := L.table1, esi := 0, edx, mem }).esi = frameAddr n ∧
    (loop1^[n] { edi := L.table1, esi := 0, edx, mem }).mem = storeAll mem (loop1Stores L n)
  | 0 => ⟨(UInt32.add_zero _).symm, rfl, rfl⟩
  | n + 1 => by
    obtain ⟨hedi, hesi, hmem⟩ := loop1_iterate L edx mem n
    rw [Function.iterate_succ_apply']
    refine ⟨?_, ?_, ?_⟩
    · show (loop1^[n] _).edi + 4 = _
      rw [hedi, entryAddr_succ]
    · show (loop1^[n] _).esi + 4096 = _
      rw [hesi, frameAddr_succ]
    · show Function.update (loop1^[n] _).mem (loop1^[n] _).edi ((loop1^[n] _).esi ||| 0x003) = _
      rw [hedi, hesi, hmem, loop1Stores, loop1Stores, List.range_succ, List.map_append,
        storeAll_append]
      rfl

/-- **The second loop stores nothing**: `boot_page_table2` keeps what `.bss` holds. -/
theorem loop2_iterate (s : StartState) : ∀ n, (loop2^[n] s).mem = s.mem
  | 0 => rfl
  | n + 1 => by
    rw [Function.iterate_succ_apply']
    exact loop2_iterate s n

theorem start_eq (L : BootLayout) (mem : PhysMem) :
    start L mem = storeAll (storeAll mem (loop1Stores L 1024)) (directoryStores L) := by
  unfold start
  simp only [loop2_iterate]
  rw [(loop1_iterate L 0 mem 1024).2.2]

/-! ## What the tables hold -/

section Tables

variable (L : BootLayout) (mem : PhysMem)

theorem directory_ne_table1 : L.directory ≠ L.table1 := by
  intro h
  have htable := L.toNat_table1
  rw [← h] at htable
  omega

theorem table2_ne_directory : L.table2 ≠ L.directory := by
  intro h
  have htable := L.toNat_table2
  rw [h] at htable
  omega

theorem table2_ne_table1 : L.table2 ≠ L.table1 := by
  intro h
  have h1 := L.toNat_table1
  have h2 := L.toNat_table2
  rw [h] at h2
  omega

/-- The boot pages are part of `.bss`. -/
theorem loadBss_bootPage {table : UInt32} (haligned : PageAligned table)
    (hlo : L.directory.toNat ≤ table.toNat) (hhi : table.toNat ≤ L.directory.toNat + 0x2000)
    {i : Nat} (hi : i < 1024) : loadBss L mem (entryAddr table i) = 0 := by
  have hbitmap : Paging.bitmapSize = 131072 := rfl
  have hbounds := L.directory_bounds
  have hdir := L.toNat_bootPageDirectory
  have hhigher := L.higherHalf
  have hbss := L.bss_le
  apply if_pos
  rw [UInt32.le_iff_toNat_le, UInt32.lt_iff_toNat_lt, toNat_entryAddr haligned hi,
    L.kernelEnd.virtToPhys_addr, toNat_virtToPhys (by omega)]
  omega

/-- **The frame of the boot code**: it stores to the directory and to the first table only. -/
theorem bootMemory_of_ne {a : UInt32} (hdir : ∀ i, i < 1024 → entryAddr L.directory i ≠ a)
    (htab : ∀ i, i < 1024 → entryAddr L.table1 i ≠ a) : bootMemory L mem a = loadBss L mem a := by
  rw [bootMemory, Function.update_of_ne (hdir 0 (by omega)).symm, start_eq, storeAll_of_ne,
    storeAll_of_ne]
  · intro w hw
    obtain ⟨i, hi, rfl⟩ := List.mem_map.mp hw
    exact htab i (List.mem_range.mp hi)
  · simp only [directoryStores, List.forall_mem_cons]
    exact ⟨htab _ (by omega), hdir _ (by omega), hdir _ (by omega), hdir _ (by omega),
      hdir _ (by omega), fun _ h => nomatch h⟩

/-- An address behind the image keeps what the loader left there. -/
theorem bootMemory_of_ge {a : UInt32} (ha : L.kernelEnd.phys ≤ a.toNat) :
    bootMemory L mem a = mem a := by
  have hbitmap : Paging.bitmapSize = 131072 := rfl
  have hbounds := L.directory_bounds
  have h1 := L.toNat_table1
  have hentry : ∀ {table : UInt32}, PageAligned table → table.toNat ≤ L.table1.toNat →
      ∀ i, i < 1024 → entryAddr table i ≠ a := by
    rintro table haligned hle i hi rfl
    rw [toNat_entryAddr haligned hi] at ha
    omega
  rw [bootMemory_of_ne L mem (hentry L.pageAligned_directory (by omega))
    (hentry L.pageAligned_table1 (Nat.le_refl _))]
  refine if_neg (fun h => ?_)
  have hlt := UInt32.lt_iff_toNat_lt.mp h.2
  rw [L.kernelEnd.virtToPhys_addr] at hlt
  omega

/-- The boot directory: both tables at `0xC0000000`, the second one also at 4 MiB. -/
theorem bootMemory_directory {i : Nat} (hi : i < 1024) :
    bootMemory L mem (entryAddr L.directory i) =
      if i = 768 then L.table1 ||| 0x003
      else if i = 1 ∨ i = 769 then L.table2 ||| 0x003 else 0 := by
  have hd := L.pageAligned_directory
  have hne : entryAddr L.directory i ≠ entryAddr L.table1 1023 := fun h =>
    directory_ne_table1 L ((entryAddr_inj hd L.pageAligned_table1 hi (by decide)).mp h).1
  have hinj : ∀ k, k < 1024 → (entryAddr L.directory i = entryAddr L.directory k ↔ i = k) :=
    fun k hk => (entryAddr_inj hd hd hi hk).trans (and_iff_right rfl)
  have hloop : storeAll (loadBss L mem) (loop1Stores L 1024) (entryAddr L.directory i) = 0 := by
    rw [storeAll_of_ne]
    · exact loadBss_bootPage L mem hd (Nat.le_refl _) (Nat.le_add_right _ _) hi
    · intro w hw heq
      obtain ⟨k, hk, rfl⟩ := List.mem_map.mp hw
      exact directory_ne_table1 L ((entryAddr_inj L.pageAligned_table1 hd
        (List.mem_range.mp hk) hi).mp heq).1.symm
  rw [bootMemory, start_eq, directoryStores]
  simp only [storeAll_cons, storeAll_nil, Function.update_apply, hne, if_false, hloop,
    hinj 0 (by decide), hinj 1 (by decide), hinj 768 (by decide), hinj 769 (by decide),
    add_flags L.pageAligned_table1 (show (0x003 : UInt32).toNat < 4096 by decide),
    add_flags L.pageAligned_table2 (show (0x003 : UInt32).toNat < 4096 by decide)]
  split_ifs <;> first | omega | rfl

/-- The first table: the first 1023 pages of memory, and the VGA buffer. -/
theorem bootMemory_table1 {i : Nat} (hi : i < 1024) :
    bootMemory L mem (entryAddr L.table1 i) =
      if i = 1023 then 0x000B8000 ||| 0x003 else frameAddr i ||| 0x003 := by
  have ht := L.pageAligned_table1
  have hne : ∀ k, k < 1024 → entryAddr L.table1 i ≠ entryAddr L.directory k := fun k hk h =>
    directory_ne_table1 L ((entryAddr_inj ht L.pageAligned_directory hi hk).mp h).1.symm
  have hinj : ∀ k, k < 1024 → (entryAddr L.table1 i = entryAddr L.table1 k ↔ i = k) :=
    fun k hk => (entryAddr_inj ht ht hi hk).trans (and_iff_right rfl)
  have hloop : storeAll (loadBss L mem) (loop1Stores L 1024) (entryAddr L.table1 i)
      = frameAddr i ||| 0x003 := by
    refine storeAll_of_agree (List.mem_map_of_mem (List.mem_range.mpr hi)) ?_
    intro w hw heq
    obtain ⟨k, hk, rfl⟩ := List.mem_map.mp hw
    obtain rfl := (hinj k (List.mem_range.mp hk)).mp heq.symm
    rfl
  rw [bootMemory, start_eq, directoryStores]
  simp only [storeAll_cons, storeAll_nil, Function.update_apply, hne 0 (by decide),
    hne 1 (by decide), hne 768 (by decide), hne 769 (by decide), if_false, hloop,
    hinj 1023 (by decide)]

/-- The second table is empty. -/
theorem bootMemory_table2 {i : Nat} (hi : i < 1024) :
    bootMemory L mem (entryAddr L.table2 i) = 0 := by
  have h2 := L.toNat_table2
  have hne : ∀ {table : UInt32}, PageAligned table → L.table2 ≠ table →
      ∀ k, k < 1024 → entryAddr table k ≠ entryAddr L.table2 i := fun haligned hne k hk h =>
    hne ((entryAddr_inj haligned L.pageAligned_table2 hk hi).mp h).1.symm
  rw [bootMemory_of_ne L mem (hne L.pageAligned_directory (table2_ne_directory L))
    (hne L.pageAligned_table1 (table2_ne_table1 L))]
  exact loadBss_bootPage L mem L.pageAligned_table2 (by omega) (by omega) hi

/-! ## The boot mapping -/

/-- The first table, at slot 768, maps the first 1023 pages of memory. -/
theorem translate_of_table1 {mem' : PhysMem} {virt : UInt32}
    (hpde : mem' (entryAddr L.directory 768) = L.table1 ||| 0x003)
    (hpte : ∀ i, i < 1023 → mem' (entryAddr L.table1 i) = frameAddr i ||| 0x003)
    (hlo : 0xC0000000 ≤ virt.toNat) (hhi : virt.toNat < 0xC03FF000) :
    translateVirt mem' L.directory virt = some (virt - kernelOffset) := by
  have hflags : (0x003 : UInt32).toNat < 4096 := by decide
  have hpd : pdIndex virt = 768 := by rw [pdIndex_eq]; omega
  have hpt : ptIndex virt = virt.toNat / 4096 % 1024 := ptIndex_eq virt
  have hpage := pageAligned_frameAddr (show ptIndex virt < 0x100000 by omega)
  rw [translateVirt, walk_of_flags L.pageAligned_table1 hpage hflags hflags (hpd ▸ hpde)
    (hpte _ (by omega)) rfl rfl, Option.map_some]
  apply congrArg some
  apply UInt32.toNat_inj.mp
  rw [toNat_page_add hpage, toNat_frameAddr (by omega)]
  show _ = (virtToPhys virt).toNat
  rw [toNat_virtToPhys hlo]
  omega

theorem bootTranslate_mapped {virt : UInt32} (hlo : 0xC0000000 ≤ virt.toNat)
    (hhi : virt.toNat < 0xC03FF000) : bootTranslate L mem virt = some (virt - kernelOffset) :=
  translate_of_table1 L ((bootMemory_directory L mem (by decide)).trans (if_pos rfl))
    (fun i hi => (bootMemory_table1 L mem (by omega)).trans (if_neg (by omega))) hlo hhi

/-- The last page of the table is the VGA buffer. -/
theorem bootTranslate_vga {virt : UInt32} (hlo : 0xC03FF000 ≤ virt.toNat)
    (hhi : virt.toNat < 0xC0400000) :
    bootTranslate L mem virt = some (virt - 0xC03FF000 + 0x000B8000) := by
  have hflags : (0x003 : UInt32).toNat < 4096 := by decide
  have hpd : pdIndex virt = 768 := by rw [pdIndex_eq]; omega
  have hpt : ptIndex virt = 1023 := by rw [ptIndex_eq]; omega
  have hpde := (bootMemory_directory L mem (show 768 < 1024 by decide)).trans (if_pos rfl)
  have hpte := (bootMemory_table1 L mem (show 1023 < 1024 by decide)).trans (if_pos rfl)
  have hpage : PageAligned 0x000B8000 := by decide
  rw [bootTranslate, translateVirt, walk_of_flags L.pageAligned_table1 hpage hflags hflags
    (hpd ▸ hpde) (hpt ▸ hpte) rfl rfl, Option.map_some]
  apply congrArg some
  apply UInt32.toNat_inj.mp
  rw [toNat_page_add hpage, UInt32.toNat_add, UInt32.toNat_sub]
  simp only [UInt32.reduceToNat]
  omega

/-- Nothing else is mapped: the second table is empty. -/
theorem bootTranslate_none {virt : UInt32}
    (h : virt.toNat < 0xC0000000 ∨ 0xC0400000 ≤ virt.toNat) : bootTranslate L mem virt = none := by
  have hflags : (0x003 : UInt32).toNat < 4096 := by decide
  have hpd := pdIndex_eq virt
  have hpde := bootMemory_directory L mem (pdIndex_lt virt)
  rw [if_neg (by omega)] at hpde
  by_cases htable2 : pdIndex virt = 1 ∨ pdIndex virt = 769
  · rw [if_pos htable2] at hpde
    rw [bootTranslate, translateVirt, walk_of_not_present_pte hpde, Option.map_none]
    rw [entryFrame_or L.pageAligned_table2 hflags, bootMemory_table2 L mem (ptIndex_lt virt)]
    rfl
  · rw [if_neg htable2] at hpde
    rw [bootTranslate, translateVirt, walk_of_not_present_pde, Option.map_none]
    rw [hpde]
    rfl

/-- `setGdt` runs on the mapping of `_start` and leaves `bootMemory`. -/
theorem setGdt_start : setGdt L (start L (loadBss L mem)) = some (bootMemory L mem) := by
  have hdir := L.toNat_bootPageDirectory
  have hbounds := L.directory_bounds
  have hd := L.pageAligned_directory
  -- the store of `setGdt` is not to one of the entries its own address is translated by
  have hkeep : ∀ a, a ≠ entryAddr L.directory 0 →
      start L (loadBss L mem) a = bootMemory L mem a :=
    fun a ha => (Function.update_of_ne ha _ _).symm
  have hpde : start L (loadBss L mem) (entryAddr L.directory 768) = L.table1 ||| 0x003 := by
    rw [hkeep _ (fun h => absurd ((entryAddr_inj hd hd (by decide) (by decide)).mp h).2
      (by decide)), bootMemory_directory L mem (by decide), if_pos rfl]
  have hpte : ∀ i, i < 1023 →
      start L (loadBss L mem) (entryAddr L.table1 i) = frameAddr i ||| 0x003 := by
    intro i hi
    rw [hkeep _ (fun h => directory_ne_table1 L ((entryAddr_inj L.pageAligned_table1 hd (by omega)
      (by decide)).mp h).1.symm), bootMemory_table1 L mem (by omega), if_neg (by omega)]
  have htr : translateVirt (start L (loadBss L mem)) L.directory (L.bootPageDirectory + 0)
      = some (entryAddr L.directory 0) := by
    rw [UInt32.add_zero, translate_of_table1 L hpde hpte (by omega) (by omega)]
    exact congrArg some (UInt32.add_zero _).symm
  rw [setGdt, storeVia, htr]
  rfl

/-! ## Filling a frame through `frame + KERNEL_OFFSET` -/

section Frame

variable {frame : UInt32} {i : Nat} (hframe : PageAligned frame) (hi : i < 1024)
include hframe hi

/-- The address the entry is filled through; a high frame wraps below `0xC0000000`. -/
theorem toNat_entryAddr_offset :
    (entryAddr (frame + kernelOffset) i).toNat
      = (frame.toNat + 0xC0000000) % 2 ^ 32 + 4 * i := by
  have hsum : (frame + kernelOffset).toNat = (frame.toNat + 0xC0000000) % 2 ^ 32 :=
    UInt32.toNat_add _ _
  have haligned : PageAligned (frame + kernelOffset) := by
    unfold PageAligned at hframe ⊢
    omega
  rw [toNat_entryAddr haligned hi, hsum]

/-- A frame below `0x3FF000` is filled in place. -/
theorem bootTranslate_frame (hlt : frame.toNat < 0x3FF000) :
    bootTranslate L mem (entryAddr (frame + kernelOffset) i) = some (entryAddr frame i) := by
  have haddr := toNat_entryAddr_offset hframe hi
  unfold PageAligned at hframe
  rw [bootTranslate_mapped L mem (by omega) (by omega)]
  apply congrArg some
  apply UInt32.toNat_inj.mp
  show (virtToPhys _).toNat = _
  rw [toNat_virtToPhys (by omega), toNat_entryAddr hframe hi]
  omega

/-- The frame `0x3FF000` is not: its page shows the VGA buffer. -/
theorem bootTranslate_frame_vga (heq : frame.toNat = 0x3FF000) :
    bootTranslate L mem (entryAddr (frame + kernelOffset) i) = some (entryAddr 0xB8000 i) := by
  have haddr := toNat_entryAddr_offset hframe hi
  rw [bootTranslate_vga L mem (by omega) (by omega)]
  apply congrArg some
  apply UInt32.toNat_inj.mp
  rw [UInt32.toNat_add, UInt32.toNat_sub, haddr, toNat_entryAddr (by decide) hi]
  simp only [UInt32.reduceToNat]
  omega

/-- Every later frame faults. -/
theorem bootTranslate_frame_none (hge : 0x400000 ≤ frame.toNat) :
    bootTranslate L mem (entryAddr (frame + kernelOffset) i) = none := by
  have haddr := toNat_entryAddr_offset hframe hi
  have hlt : frame.toNat < 2 ^ 32 := frame.toNat_lt
  unfold PageAligned at hframe
  exact bootTranslate_none L mem (by omega)

end Frame

end Tables

end MyOs.Boot
