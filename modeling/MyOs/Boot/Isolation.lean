/-
  Users and kernel in the address space of `setup_paging`.

  The users' window is one to one from 4 MiB on, and everything the kernel has to keep to itself
  (its image, the directory, the page tables) lies below 4 MiB, since a table from 4 MiB on faults
  while it is filled.  One table escapes this argument: the frame `0x3FF000` is handed out like any
  other, its stores go to the VGA buffer, and the walk then reads what the memory at `0x3FF000`
  held before.

  * `frameAt_rank`, `frameAt_zero` : the frame of a table from its number;
  * `exposed_of_walk`              : a user's way to a protected frame goes through a user table in
    `0x3FF000` and an entry that was in that memory before;
  * `not_isolated_of_exposed`      : and such a table and entry are a way;
  * `isolated_iff`                 : isolation holds exactly without them.
-/
import MyOs.Boot.AddressSpace

namespace MyOs.Boot

open MyOs.Lib MyOs.Lib.Mmu MyOs.Lib.Stores MyOs.Paging

/-! ## The frame of a table from its number -/

/-- The frame of table `k`, in the order of the allocations. -/
def frameAt (L : BootLayout) (m : MemoryMap) (b : Bitmap) (k : Nat) : UInt32 :=
  (pageTableFrames L m b).getD k 0

theorem getD_append_right {l l' : List UInt32} {n : Nat} (hlen : l.length = n) (j : Nat) :
    (l ++ l').getD (n + j) 0 = l'.getD j 0 := by
  rw [List.getD_append_right l l' 0 (n + j) (by omega), hlen, Nat.add_sub_cancel_left]

section FrameAt

variable {L : BootLayout} {m : MemoryMap} {b : Bitmap}

theorem userTable_frame (userPt : List UInt32) (j : Nat) :
    (userTable userPt j).frame = userPt.getD j 0 := rfl

theorem userPt_getD (j : Nat) : (userPt L m b).1.getD j 0 = frameAt L m b (128 + j) := by
  rw [frameAt, pageTableFrames_eq, getD_append_right]
  rw [kernelPt, allocFrames_length]

theorem frameAt_eq {k : Nat} (hk : k < (pageTableFrames L m b).length) :
    frameAt L m b k = (pageTableFrames L m b)[k] := List.getD_eq_getElem _ 0 hk

theorem frameAt_mem {k : Nat} (hk : k < 384) : frameAt L m b k ∈ pageTableFrames L m b := by
  rw [frameAt_eq (by rw [pageTableFrames_length]; exact hk)]
  exact List.getElem_mem _

/-- After a failure every call fails. -/
theorem frameAt_zero {k k' : Nat} (hle : k ≤ k') (hk' : k' < 384) (hzero : frameAt L m b k = 0) :
    frameAt L m b k' = 0 := by
  rcases Nat.eq_or_lt_of_le hle with rfl | hlt
  · exact hzero
  have hlen := pageTableFrames_length L m b
  have hpairs := List.pairwise_iff_getElem.mp (allocFrames_pairwise (virtToPhys_ge L.kernelEnd)
    (kernelPageTables + userPageTables) (setupBitmap L.kernelEnd.addr m b)) k k'
    (by rw [← pageTableFrames]; omega) (by rw [← pageTableFrames]; omega) hlt
  by_contra hne
  rw [frameAt_eq (by omega)] at hzero hne
  exact (hpairs hne).1 hzero

/-- **Rank**: table `k` is in the free page that has `k` free pages below it. -/
theorem frameAt_rank {k : Nat} (hk : k < 384) (hne : frameAt L m b k ≠ 0) :
    (freePages L m ((frameAt L m b k).toNat / 4096)).card = k := by
  have hlen := pageTableFrames_length L m b
  obtain ⟨free', hallocs⟩ := pageTableFrames_allocs L m b
  have hsplit : pageTableFrames L m b = (pageTableFrames L m b).take k ++
      frameAt L m b k :: (pageTableFrames L m b).drop (k + 1) := by
    rw [frameAt_eq (by omega), ← List.drop_eq_getElem_cons, List.take_append_drop]
  rw [hsplit, List.map_append, List.map_cons, framePage_eq_some hne] at hallocs
  have hrank := hallocs.rank_eq (fun p => mem_freePages (m := m) b (p := p))
  rw [hrank, List.length_map, List.length_take]
  omega

/-- So its page is at least `k` above the start index. -/
theorem frameAt_ge {k : Nat} (hk : k < 384) (hne : frameAt L m b k ≠ 0) :
    startIndex L.kernelEnd.addr + k ≤ (frameAt L m b k).toNat / 4096 := by
  have hcard := frameAt_rank hk hne
  have hle := card_freePages_le L m ((frameAt L m b k).toNat / 4096)
  obtain ⟨p, -, hstart, haddr⟩ := frame_free L m b (frameAt_mem hk) hne
  omega

/-- A user table below 4 MiB leaves room for the kernel image below it. -/
theorem phys_le_of_userTable {j : Nat} (hj : j < 256) (hne : frameAt L m b (128 + j) ≠ 0)
    (hlt : (frameAt L m b (128 + j)).toNat < 0x400000) : L.kernelEnd.phys ≤ 0x3FF000 := by
  have hge := frameAt_ge (by omega) hne
  obtain ⟨-, -, hend⟩ := startIndex_bounds L.kernelEnd
  omega

theorem exists_frameAt {f : UInt32} (hf : f ∈ pageTableFrames L m b) :
    ∃ k, k < 384 ∧ frameAt L m b k = f := by
  obtain ⟨k, hk, rfl⟩ := List.mem_iff_getElem.mp hf
  exact ⟨k, by rwa [pageTableFrames_length] at hk, frameAt_eq hk⟩

/-- A page is handed out when it is free and fewer than 384 free pages lie below it. -/
theorem mem_frames_of_card {p : Nat} (hp : m.Frees p) (hstart : startIndex L.kernelEnd.addr ≤ p)
    (hcard : (freePages L m p).card < 384) : ∃ f ∈ pageTableFrames L m b, f.toNat = 4096 * p := by
  obtain ⟨free', hallocs⟩ := pageTableFrames_allocs L m b
  obtain ⟨hlow, -, -⟩ := startIndex_bounds L.kernelEnd
  have hsome := (hallocs.some_mem_iff (fun q => mem_freePages (m := m) b (p := q))).mpr
    ⟨(mem_freeSet_setupBitmap L.kernelEnd m b p).mpr ⟨by omega, hp⟩, hstart,
      by rwa [List.length_map, pageTableFrames_length]⟩
  obtain ⟨f, hf, hpage⟩ := List.mem_map.mp hsome
  exact ⟨f, hf, allocFrames_aligned (virtToPhys_ge L.kernelEnd) _ _ f hf p hpage⟩

end FrameAt

/-! ## The frame `0x3FF000` as a table -/

theorem freePages_mono (L : BootLayout) (m : MemoryMap) {B B' : Nat} (h : B ≤ B') :
    (freePages L m B).card ≤ (freePages L m B').card :=
  Finset.card_le_card (Finset.filter_subset_filter _ (Finset.Ico_subset_Ico_right h))

theorem card_freePages_succ {L : BootLayout} {m : MemoryMap} {p : Nat} (hp : m.Frees p)
    (hstart : startIndex L.kernelEnd.addr ≤ p) :
    (freePages L m (p + 1)).card = (freePages L m p).card + 1 := by
  have hinsert : freePages L m (p + 1) = insert p (freePages L m p) := by
    apply Finset.ext
    intro q
    simp only [freePages, Finset.mem_filter, Finset.mem_insert, Finset.mem_Ico]
    constructor
    · rintro ⟨⟨hlo, hhi⟩, hq⟩
      rcases Nat.eq_or_lt_of_le (Nat.le_of_lt_succ hhi) with rfl | hlt
      · exact Or.inl rfl
      · exact Or.inr ⟨⟨hlo, hlt⟩, hq⟩
    · rintro (rfl | ⟨⟨hlo, hhi⟩, hq⟩)
      · exact ⟨⟨hstart, Nat.lt_succ_self _⟩, hp⟩
      · exact ⟨⟨hlo, Nat.lt_succ_of_lt hhi⟩, hq⟩
  have hnot : p ∉ freePages L m p := by
    intro hmem
    exact absurd (Finset.mem_Ico.mp (Finset.mem_filter.mp hmem).1).2 (Nat.lt_irrefl p)
  rw [hinsert, Finset.card_insert_of_notMem hnot]

/-- The map hands out page `0x3FF` as a user table and no page above it: it is free, at least 128
    and at most 383 free pages lie below it, and either it is the last one needed or the last one
    there is. -/
structure ShadowedUserTable (L : BootLayout) (m : MemoryMap) : Prop where
  free : m.Frees 0x3FF
  user : 128 ≤ (freePages L m 0x3FF).card
  served : (freePages L m 0x3FF).card ≤ 383
  last : (freePages L m 0x3FF).card = 383 ∨ ∀ p, 0x400 ≤ p → ¬ m.Frees p

namespace ShadowedUserTable

variable {L : BootLayout} {m : MemoryMap} {b : Bitmap}

theorem startIndex_le (h : ShadowedUserTable L m) : startIndex L.kernelEnd.addr + 128 ≤ 0x3FF := by
  have hle := card_freePages_le L m 0x3FF
  have huser := h.user
  omega

theorem card_succ (h : ShadowedUserTable L m) :
    (freePages L m 0x400).card = (freePages L m 0x3FF).card + 1 := by
  have hstart := h.startIndex_le
  exact card_freePages_succ (L := L) h.free (by omega)

/-- It is the table whose number is the number of free pages below it. -/
theorem frameAt_eq (h : ShadowedUserTable L m) :
    frameAt L m b (freePages L m 0x3FF).card = 0x3FF000 := by
  have hserved := h.served
  have hstart := h.startIndex_le
  obtain ⟨f, hf, haddr⟩ := mem_frames_of_card (L := L) (b := b) h.free (by omega) (by omega)
  obtain ⟨k, hk, rfl⟩ := exists_frameAt hf
  have hne : frameAt L m b k ≠ 0 := by
    intro hzero
    rw [hzero, UInt32.toNat_zero] at haddr
    omega
  have hrank := frameAt_rank hk hne
  rw [haddr, Nat.mul_div_cancel_left _ (by decide)] at hrank
  rw [hrank]
  exact UInt32.toNat_inj.mp haddr

/-- No table is at or above 4 MiB. -/
theorem below (h : ShadowedUserTable L m) : ∀ f ∈ pageTableFrames L m b, f.toNat < 0x400000 := by
  intro f hf
  have hsucc := h.card_succ
  rcases h.last with hall | hnone
  · exact ((frames_below_iff L m b 0x400).mpr (by omega) f hf).2
  · by_cases hz : f = 0
    · rw [hz]
      decide
    · obtain ⟨p, hfrees, -, haddr⟩ := frame_free L m b hf hz
      have hlt : p < 0x400 := Nat.lt_of_not_le (fun hge => hnone p hge hfrees)
      omega

/-- The tables: the free pages below `0x400`, and the frame zero when they are too few. -/
theorem mem_frames_iff (h : ShadowedUserTable L m) {f : UInt32} :
    f ∈ pageTableFrames L m b ↔ (f = 0 ∧ (freePages L m 0x3FF).card < 383) ∨
      ∃ p ∈ freePages L m 0x400, f.toNat = 4096 * p := by
  have hsucc := h.card_succ
  have hserved := h.served
  constructor
  · intro hf
    by_cases hz : f = 0
    · refine Or.inl ⟨hz, ?_⟩
      by_contra hall
      exact ((frames_below_iff L m b 0x400).mpr (by omega) f hf).1 hz
    · obtain ⟨p, hfrees, hstart, haddr⟩ := frame_free L m b hf hz
      have hlt := h.below (b := b) f hf
      refine Or.inr ⟨p, ?_, haddr⟩
      exact Finset.mem_filter.mpr ⟨Finset.mem_Ico.mpr ⟨hstart, by omega⟩, hfrees⟩
  · rintro (⟨rfl, hfew⟩ | ⟨p, hp, haddr⟩)
    · by_contra hnot
      have hcard := (frames_below_iff L m b 0x400).mp (fun f hf =>
        ⟨fun hz => hnot (hz ▸ hf), h.below f hf⟩)
      omega
    · obtain ⟨hico, hfrees⟩ := Finset.mem_filter.mp hp
      obtain ⟨hstart, hlt⟩ := Finset.mem_Ico.mp hico
      have hmono := freePages_mono L m (show p ≤ 0x3FF by omega)
      obtain ⟨f', hf', haddr'⟩ := mem_frames_of_card (b := b) hfrees hstart (by omega)
      rwa [UInt32.toNat_inj.mp (haddr.trans haddr'.symm)]

/-- Conversely, when no table is at or above 4 MiB and a user table is in `0x3FF000`. -/
theorem of_frameAt {j : Nat} (hj : j < 256) (hframe : frameAt L m b (128 + j) = 0x3FF000)
    (hbelow : ∀ f ∈ pageTableFrames L m b, f.toNat < 0x400000) : ShadowedUserTable L m := by
  have hne : frameAt L m b (128 + j) ≠ 0 := by
    rw [hframe]
    decide
  have hrank := frameAt_rank (by omega) hne
  obtain ⟨p, hfrees, hstart, haddr⟩ := frame_free L m b (frameAt_mem (by omega)) hne
  rw [hframe] at hrank haddr
  obtain rfl : p = 0x3FF := by
    rw [show (0x3FF000 : UInt32).toNat = 4096 * 0x3FF from rfl] at haddr
    omega
  have hcard : (freePages L m 0x3FF).card = 128 + j := hrank
  refine ⟨hfrees, by omega, by omega, ?_⟩
  by_contra hlast
  rw [not_or] at hlast
  obtain ⟨hfew, hexists⟩ := hlast
  apply hexists
  intro p hp hpfree
  -- a free page above stays free, so no call fails: 384 pages below `0x400` were handed out
  obtain ⟨free', hallocs⟩ := pageTableFrames_allocs L m b
  obtain ⟨hlow, -, -⟩ := startIndex_bounds L.kernelEnd
  have hnone := hallocs.none_not_mem (a := p)
    ((mem_freeSet_setupBitmap L.kernelEnd m b p).mpr ⟨by omega, hpfree⟩) (by omega) (fun hs => by
      obtain ⟨f, hf, hpage⟩ := List.mem_map.mp hs
      have haddr := allocFrames_aligned (virtToPhys_ge L.kernelEnd) _ _ f hf p hpage
      have hlt := hbelow f hf
      omega)
  have hcount := (frames_below_iff L m b 0x400).mp (fun f hf =>
    ⟨fun hz => hnone (List.mem_map.mpr ⟨f, hf, if_pos hz⟩), hbelow f hf⟩)
  have hsucc : (freePages L m 0x400).card = (freePages L m 0x3FF).card + 1 :=
    card_freePages_succ hfrees hstart
  omega

end ShadowedUserTable

/-! ## Isolation -/

/-- What users are to be kept from: the kernel image, the directory and the page tables. -/
def Protected (L : BootLayout) (m : MemoryMap) (b : Bitmap) (frame : UInt32) : Prop :=
  L.kernelEnd.Overlaps frame.toNat ∨ frame = L.directory ∨ frame ∈ pageTableFrames L m b

/-- No address that the directory opens to users translates to a protected frame. -/
def Isolated (L : BootLayout) (m : MemoryMap) (b : Bitmap) (mem : PhysMem) : Prop :=
  ∀ virt t, walk mem L.directory virt = some t → t.isUser = true →
    ¬ Protected L m b (entryFrame t.pte)

/-- `Protected`, read off the map of a shadowed user table. -/
def ProtectedByMap (L : BootLayout) (m : MemoryMap) (frame : UInt32) : Prop :=
  L.kernelEnd.Overlaps frame.toNat ∨ frame = L.directory ∨
    (frame = 0 ∧ (freePages L m 0x3FF).card < 383) ∨
    ∃ p ∈ freePages L m 0x400, frame.toNat = 4096 * p

/-- The map puts a user table in the frame `0x3FF000`, and the memory there holds a user entry for
    a protected frame. -/
def Exposed (L : BootLayout) (m : MemoryMap) (mem : PhysMem) : Prop :=
  ShadowedUserTable L m ∧ ∃ i, i < 1024 ∧ present (mem (entryAddr 0x3FF000 i)) = true ∧
    user (mem (entryAddr 0x3FF000 i)) = true ∧
    ProtectedByMap L m (entryFrame (mem (entryAddr 0x3FF000 i)))

section Isolation

variable {L : BootLayout} {m : MemoryMap} {b : Bitmap} {mem : PhysMem}

theorem ShadowedUserTable.protected_iff (h : ShadowedUserTable L m) {frame : UInt32} :
    Protected L m b frame ↔ ProtectedByMap L m frame :=
  or_congr Iff.rfl (or_congr Iff.rfl h.mem_frames_iff)

/-- The kernel and its tables lie below `0x40000000`. -/
theorem lt_of_protected (hbelow : ∀ f ∈ pageTableFrames L m b, f.toNat < 0x400000) {frame : UInt32}
    (h : Protected L m b frame) : frame.toNat < 0x40000000 := by
  have hphys := L.kernelEnd.phys_lt
  obtain ⟨-, hhigh, -⟩ := L.directory_bounds
  rcases h with hoverlap | rfl | hf
  · exact Nat.lt_trans hoverlap.1 hphys
  · omega
  · exact Nat.lt_trans (hbelow frame hf) (by decide)

/-- When a user table is below 4 MiB, they lie below 4 MiB, too. -/
theorem lt_of_protected' (hbelow : ∀ f ∈ pageTableFrames L m b, f.toNat < 0x400000)
    (hphys : L.kernelEnd.phys ≤ 0x3FF000) {frame : UInt32} (h : Protected L m b frame) :
    frame.toNat < 0x400000 := by
  obtain ⟨-, hhigh, -⟩ := L.directory_bounds
  rcases h with hoverlap | rfl | hf
  · exact Nat.lt_of_lt_of_le hoverlap.1 (by omega)
  · omega
  · exact hbelow frame hf

/-- **The slots that are open to users** are those of the user tables. -/
theorem user_slot {i : Nat} (hi : i < 1024)
    (huser : user (setupMemory L m b (bootMemory L mem) (entryAddr L.directory i)) = true) :
    ∃ j, j < 256 ∧ i = j + 1 := by
  have hflags : (0x3 : UInt32).toNat < 4096 := by decide
  have hclosed : user 0x3 = false := by decide
  by_contra hnot
  have hfalse : user (setupMemory L m b (bootMemory L mem) (entryAddr L.directory i)) = false := by
    by_cases hslot : ∃ t ∈ tables L m b, t.slot = i
    · obtain ⟨t, ht, rfl⟩ := hslot
      rw [read_slot _ ht, user_or (pageAligned_table ht) (table_bounds ht).2.2]
      rcases mem_pageTables.mp ht with ⟨j, -, rfl⟩ | ⟨j, hj, rfl⟩
      · exact hclosed
      · exact absurd ⟨j, hj, rfl⟩ hnot
    · by_cases hlast : i = 1023
      · rw [hlast, read_own, user_or L.pageAligned_directory hflags, hclosed]
      · rw [read_other_slot _ hi (fun t ht hti => hslot ⟨t, ht, hti⟩) hlast,
          bootMemory_directory L mem hi]
        split_ifs
        · rw [user_or L.pageAligned_table1 hflags, hclosed]
        · rw [user_or L.pageAligned_table2 hflags, hclosed]
        · rfl
  rw [hfalse] at huser
  nomatch huser

/-- The frame of an entry of the users' window. -/
theorem toNat_entryFrame_window {n : Nat} (hn : n < 0x100000) :
    (entryFrame (frameAddr n ||| 0x7)).toNat = 4096 * n := by
  rw [entryFrame_or (pageAligned_frameAddr hn) (by decide), toNat_frameAddr hn]

/-- **A user's way to a protected frame** goes through the frame `0x3FF000`. -/
theorem exposed_of_walk (hbelow : ∀ f ∈ pageTableFrames L m b, f.toNat < 0x400000)
    {virt : UInt32} {t : Translation}
    (hwalk : walk (setupMemory L m b (bootMemory L mem)) L.directory virt = some t)
    (huser : t.isUser = true) (hprot : Protected L m b (entryFrame t.pte)) : Exposed L m mem := by
  obtain ⟨hpde, -, hpte, hpresent, -⟩ := of_walk_eq_some hwalk
  rw [Translation.isUser, Bool.and_eq_true] at huser
  obtain ⟨huserPde, huserPte⟩ := huser
  rw [← hpde] at huserPde
  obtain ⟨j, hj, hslot⟩ := user_slot (pdIndex_lt virt) huserPde
  -- the table the walk goes through
  have ht : userTable (userPt L m b).1 j ∈ tables L m b := mem_pageTables.mpr (Or.inr ⟨j, hj, rfl⟩)
  have hframe : (userTable (userPt L m b).1 j).frame = frameAt L m b (128 + j) :=
    (userTable_frame _ j).trans (userPt_getD j)
  have hread := read_slot (bootMemory L mem) ht
  rw [show (userTable (userPt L m b).1 j).slot = pdIndex virt from hslot.symm, hpde] at hread
  rw [hread, entryFrame_or (pageAligned_table ht) (table_bounds ht).2.2] at hpte
  have hindex := ptIndex_lt virt
  by_cases hzero : (userTable (userPt L m b).1 j).frame = 0
  · -- the frame of a failed call holds the last table, which maps memory from `0x40000000` on
    have hlast : (userPt L m b).1.getD 255 0 = 0 := by
      rw [userPt_getD]
      exact frameAt_zero (show 128 + j ≤ 128 + 255 by omega) (by decide) (hframe ▸ hzero)
    rw [hzero, read_zero _ hlast hindex] at hpte
    have hlt := lt_of_protected hbelow hprot
    rw [← hpte, toNat_entryFrame_window (by omega)] at hlt
    omega
  have hne : frameAt L m b (128 + j) ≠ 0 := hframe ▸ hzero
  have hlt := hbelow _ (frameAt_mem (L := L) (m := m) (b := b) (show 128 + j < 384 by omega))
  have hphys := phys_le_of_userTable hj hne hlt
  by_cases hshadow : (userTable (userPt L m b).1 j).frame.toNat = 0x3FF000
  · -- the walk reads what was in the frame before
    have heq : (userTable (userPt L m b).1 j).frame = 0x3FF000 := UInt32.toNat_inj.mp hshadow
    have htable := ShadowedUserTable.of_frameAt hj (hframe ▸ heq) hbelow
    have haddr : (entryAddr 0x3FF000 (ptIndex virt)).toNat = 0x3FF000 + 4 * ptIndex virt :=
      toNat_entryAddr (by decide) hindex
    rw [heq, read_shadowed _ hindex, bootMemory_of_ge L mem (by omega)] at hpte
    refine ⟨htable, ptIndex virt, hindex, hpte ▸ hpresent, hpte ▸ huserPte, ?_⟩
    rw [hpte]
    exact htable.protected_iff.mp hprot
  · -- its own entries lead to the users' window
    have hlow := lt_of_protected' hbelow hphys hprot
    rw [read_table _ ht hzero hshadow hindex] at hpte
    rw [← hpte] at hlow
    rw [show (userTable (userPt L m b).1 j).flags = 0x7 from rfl,
      show (userTable (userPt L m b).1 j).first = 1024 * (j + 1) from rfl,
      toNat_entryFrame_window (by omega)] at hlow
    omega

/-- **Exposure**: the shadowed table opens the protected frame at the table's slot. -/
theorem not_isolated_of_exposed (h : Exposed L m mem) :
    ¬ Isolated L m b (setupMemory L m b (bootMemory L mem)) := by
  obtain ⟨htable, i, hi, hpresent, huser, hprot⟩ := h
  have hge := htable.user
  have hserved := htable.served
  obtain ⟨j, hj⟩ := Nat.exists_eq_add_of_le hge
  have ht : userTable (userPt L m b).1 j ∈ tables L m b :=
    mem_pageTables.mpr (Or.inr ⟨j, by omega, rfl⟩)
  have hframe : (userTable (userPt L m b).1 j).frame = 0x3FF000 := by
    rw [userTable_frame, userPt_getD, ← hj]
    exact htable.frameAt_eq
  -- the address at the table's slot that is translated by entry `i`
  have hvirt : (UInt32.ofNat ((j + 1) * 0x400000 + i * 0x1000)).toNat
      = (j + 1) * 0x400000 + i * 0x1000 := by
    rw [UInt32.toNat_ofNat']
    omega
  have hpd : pdIndex (UInt32.ofNat ((j + 1) * 0x400000 + i * 0x1000)) = j + 1 := by
    rw [pdIndex_eq, hvirt]
    omega
  have hpt : ptIndex (UInt32.ofNat ((j + 1) * 0x400000 + i * 0x1000)) = i := by
    rw [ptIndex_eq, hvirt]
    omega
  have hpde : setupMemory L m b (bootMemory L mem) (entryAddr L.directory (j + 1))
      = 0x3FF000 ||| 0x7 := by
    have hread := read_slot (bootMemory L mem) ht
    rwa [hframe] at hread
  have hphys : L.kernelEnd.phys ≤ 0x3FF000 := by
    have hstart := htable.startIndex_le
    obtain ⟨-, -, hend⟩ := startIndex_bounds L.kernelEnd
    omega
  have hpte : setupMemory L m b (bootMemory L mem) (entryAddr 0x3FF000 i)
      = mem (entryAddr 0x3FF000 i) := by
    have haddr : (entryAddr 0x3FF000 i).toNat = 0x3FF000 + 4 * i := toNat_entryAddr (by decide) hi
    rw [read_shadowed _ hi, bootMemory_of_ge L mem (by omega)]
  intro hisolated
  refine hisolated _ _ (walk_eq_some (hpd ▸ hpde) (by decide) ?_ hpresent) ?_
    (htable.protected_iff.mpr hprot)
  · rw [hpt]
    exact hpte
  · show (user (0x3FF000 ||| 0x7) && user _) = true
    rw [huser]
    rfl

end Isolation

/-- **Isolation, exactly**: in every address space that `setup_paging` builds users are kept from
    the kernel image, the directory and the page tables, unless the map puts a user table in the
    frame `0x3FF000` and the memory there held a user entry for one of these. -/
theorem isolated_iff (L : BootLayout) (m : MemoryMap) (b : Bitmap) (mem : PhysMem) :
    (∀ mem' b', setupPaging (bootTranslate L mem) L m b (bootMemory L mem) = some (mem', b') →
      Isolated L m b mem') ↔ ¬ Exposed L m mem := by
  constructor
  · intro h hexposed
    have hsome := setupPaging_eq_some (b := b) mem (bootMemory L mem) hexposed.1.below
    exact not_isolated_of_exposed hexposed (h _ _ hsome)
  · intro hexposed mem' b' hsome virt t hwalk huser hprot
    have hbelow : ∀ f ∈ pageTableFrames L m b, f.toNat < 0x400000 := by
      intro f hf
      by_contra hge
      rw [setupPaging_eq_none mem (bootMemory L mem) hf (Nat.le_of_not_lt hge)] at hsome
      nomatch hsome
    rw [setupPaging_eq_some mem (bootMemory L mem) hbelow] at hsome
    obtain ⟨rfl, rfl⟩ := Prod.mk.inj (Option.some.inj hsome)
    exact hexposed (exposed_of_walk hbelow hwalk huser hprot)

/-- Memory from `0x280000` up to 4 MiB: page `0x3FF` is the last of the 384 frames. -/
def lowMap : MemoryMap := ⟨[⟨0x280000, 0x180000⟩], by decide⟩

/-- Memory whose word at `0x3FF000` is a user entry for the first page of the kernel image. -/
def staleMemory : PhysMem := fun a => if a = 0x3FF000 then 0x00100007 else 0

theorem shadowedUserTable_lowMap : ShadowedUserTable smallLayout lowMap := by
  have hstart : startIndex smallLayout.kernelEnd.addr = 320 := by decide
  have hfirst : MemRegion.firstPage ⟨0x280000, 0x180000⟩ = 640 := by decide
  have hlast : MemRegion.lastPage ⟨0x280000, 0x180000⟩ = 0x400 := by decide
  have hpages : freePages smallLayout lowMap 0x3FF = Finset.Ico 640 0x3FF := by
    apply Finset.ext
    intro p
    rw [freePages, Finset.mem_filter, Finset.mem_Ico, Finset.mem_Ico]
    constructor
    · rintro ⟨⟨-, hhi⟩, r, hr, -, hlo, -⟩
      obtain rfl := List.mem_singleton.mp hr
      exact ⟨by omega, hhi⟩
    · rintro ⟨hlo, hhi⟩
      exact ⟨by omega, _, List.mem_singleton.mpr rfl, by decide, by omega, by omega⟩
  have hcard : (freePages smallLayout lowMap 0x3FF).card = 383 := by
    rw [hpages, Nat.card_Ico]
  refine ⟨⟨_, List.mem_singleton.mpr rfl, by decide⟩, by omega, by omega, Or.inl hcard⟩

/-- Users reach the kernel image at `0x40000000`, the slot of the last table. -/
theorem not_isolated_lowMap :
    ¬ ∀ mem' b', setupPaging (bootTranslate smallLayout staleMemory) smallLayout lowMap zeroBitmap
        (bootMemory smallLayout staleMemory) = some (mem', b') →
      Isolated smallLayout lowMap zeroBitmap mem' := by
  intro h
  have hentry : staleMemory (entryAddr 0x3FF000 0) = 0x00100007 := by decide
  have hexposed : Exposed smallLayout lowMap staleMemory := by
    refine ⟨shadowedUserTable_lowMap, 0, by decide, ?_⟩
    rw [hentry]
    exact ⟨by decide, by decide, Or.inl (by decide)⟩
  exact not_isolated_of_exposed hexposed (h _ _ (setupPaging_eq_some staleMemory
    (bootMemory smallLayout staleMemory) shadowedUserTable_lowMap.below))

end MyOs.Boot
