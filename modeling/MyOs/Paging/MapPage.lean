/-
  `map_page`: one page of an address space.

  1. **Program**: `mapPage` enters a fresh table, cleared first, when the directory has none for the
     address, and stores the page's entry.  Its stores go to `frame + KERNEL_OFFSET`, and one that
     does not translate faults: no result.  They are translated with the mapping in force at the
     call, which they do not change: an unused frame is cleared, and a free slot filled.
  2. **What it needs** (`PageDirectory`): tables in frames of their own, reached at
     `KERNEL_OFFSET`, as the frames below 512 MiB are behind `setup_paging` (`reached_setupPaging`).
  3. **What it does** (`mapPage_maps`): the page has its entry, every other page the one it had.
-/
import MyOs.Boot.AddressSpace
import MyOs.Lib.AddressSpaces

namespace MyOs.Paging

open MyOs.Lib.Mmu MyOs.Lib.Stores

/-! ## The program -/

/-- `for (int i = 0; i < 1024; i++) pt[i] = 0x0;` -/
def clearTable (tr : UInt32 → Option UInt32) (pt : UInt32) (mem : PhysMem) : Option PhysMem :=
  (List.range 1024).foldlM (fun mem i => storeVia tr mem (entryAddr pt i, 0x0)) mem

/-- The new table of `map_page`: allocated, cleared, and entered in the directory. -/
def newTable (tr : UInt32 → Option UInt32) (kernelEnd pageDirectory flags : UInt32) (pdIndex : Nat)
    (bitmap : Bitmap) (mem : PhysMem) : Option (PhysMem × Bitmap) := do
  let (ptAddr, bitmap) := allocFrame kernelEnd bitmap
  let pt := ptAddr + kernelOffset
  let mem ← clearTable tr pt mem
  let pdFlags := if flags &&& 0x4 != 0 then 0x7 else 0x3
  let mem ← storeVia tr mem (entryAddr pageDirectory pdIndex, ptAddr ||| pdFlags)
  some (mem, bitmap)

/-- The first half of `map_page`: a table for the slot, a new one when there is none. -/
def ensureTable (tr : UInt32 → Option UInt32) (kernelEnd pageDirectory flags : UInt32)
    (pdIndex : Nat) (bitmap : Bitmap) (mem : PhysMem) : Option (PhysMem × Bitmap) := do
  let pde ← loadVia tr mem (entryAddr pageDirectory pdIndex)
  if !(pde &&& 0x1 != 0) then newTable tr kernelEnd pageDirectory flags pdIndex bitmap mem
  else some (mem, bitmap)

/-- `map_page`, up to its `invlpg`: the memory and the bitmap it leaves. -/
def mapPage (tr : UInt32 → Option UInt32) (kernelEnd pageDirectory virt phys flags : UInt32)
    (bitmap : Bitmap) (mem : PhysMem) : Option (PhysMem × Bitmap) := do
  let pdIndex := (virt >>> 22).toNat
  let ptIndex := ((virt >>> 12) &&& 0x3FF).toNat
  let (mem, bitmap) ← ensureTable tr kernelEnd pageDirectory flags pdIndex bitmap mem
  let pde ← loadVia tr mem (entryAddr pageDirectory pdIndex)
  let pt := (pde &&& ~~~0xFFF) + kernelOffset
  let mem ← storeVia tr mem (entryAddr pt ptIndex, phys ||| flags)
  some (mem, bitmap)

/-! ## What it needs -/

/-- The slots of the directory but the last, where it maps itself. -/
def tableSlots : Set Nat := {i | i < 1023}

/-- A frame is reached at `KERNEL_OFFSET`. -/
def Reached (tr : UInt32 → Option UInt32) (frame : UInt32) : Prop :=
  ∀ i < 1024, tr (entryAddr (frame + kernelOffset) i) = some (entryAddr frame i)

/-- A page directory with its tables, in frames of their own. -/
structure PageDirectory (tr : UInt32 → Option UInt32) (mem : PhysMem) (cr3 : UInt32) : Prop where
  apart : Apart tableSlots mem cr3
  reached : Reached tr cr3
  tables_reached : ∀ i ∈ tableSlots, present (entryAt mem cr3 i) = true →
    Reached tr (entryFrame (entryAt mem cr3 i))

/-- A frame that `map_page` can use for a table. -/
structure FreshFrame (tr : UInt32 → Option UInt32) (mem : PhysMem) (cr3 frame : UInt32) :
    Prop where
  reached : Reached tr frame
  unused : Unused tableSlots mem cr3 frame

theorem toNat_window {f : UInt32} (hf : PageAligned f) (hlow : f < 0x20000000) {i : Nat}
    (hi : i < 1024) :
    (entryAddr (f + kernelOffset) i).toNat = f.toNat + 0xC0000000 + 4 * i := by
  rw [UInt32.lt_iff_toNat_lt] at hlow
  simp only [UInt32.reduceToNat] at hlow
  have hsum : (f + kernelOffset).toNat = f.toNat + 0xC0000000 := by
    rw [UInt32.toNat_add, show kernelOffset.toNat = 0xC0000000 from rfl]
    omega
  have haligned : PageAligned (f + kernelOffset) := by
    unfold PageAligned at hf ⊢
    rw [hsum]
    omega
  rw [toNat_entryAddr haligned hi, hsum]

/-- `setup_paging` leaves the frames below 512 MiB reached. -/
theorem reached_setupPaging {L : Boot.BootLayout} {mem mem' : PhysMem}
    (h : Boot.AddressSpace L mem mem') {f : UInt32} (hf : PageAligned f) (hlow : f < 0x20000000) :
    Reached (translateVirt mem' L.directory) f := by
  intro i hi
  have haddr := toNat_window hf hlow hi
  have hentry := toNat_entryAddr hf hi
  rw [UInt32.lt_iff_toNat_lt] at hlow
  simp only [UInt32.reduceToNat] at hlow
  obtain ⟨t, hwalk, hphys, -, -⟩ := h.kernel (entryAddr (f + kernelOffset) i)
    (by rw [UInt32.le_iff_toNat_le, haddr]; simp only [UInt32.reduceToNat]; omega)
    (by
      unfold PageAligned at hf
      rw [UInt32.lt_iff_toNat_lt, haddr]
      simp only [UInt32.reduceToNat]
      omega)
  rw [translateVirt, hwalk, Option.map_some, hphys]
  congr 1
  apply UInt32.toNat_inj.mp
  show (virtToPhys _).toNat = _
  rw [toNat_virtToPhys (by omega), haddr, hentry]
  omega

theorem bootPageDirectory_eq (L : Boot.BootLayout) :
    L.bootPageDirectory = L.directory + kernelOffset := by
  apply UInt32.toNat_inj.mp
  have hlt : L.bootPageDirectory.toNat < 2 ^ 32 := L.bootPageDirectory.toNat_lt
  rw [UInt32.toNat_add, show kernelOffset.toNat = 0xC0000000 from rfl]
  rw [L.toNat_bootPageDirectory] at hlt ⊢
  omega

/-! ## The stores -/

/-- A frame of `alloc_frame` is page-aligned. -/
theorem pageAligned_allocFrame (kernelEnd : UInt32) (b : Bitmap) :
    PageAligned (allocFrame kernelEnd b).1 := by
  unfold allocFrame PageAligned
  dsimp only
  split
  · rw [UInt32.toNat_mul]
    simp only [UInt32.reduceToNat]
    omega
  · rfl

/-- The mask `~0xFFF` takes the frame of an entry. -/
theorem and_not_0xFFF (e : UInt32) : e &&& ~~~0xFFF = entryFrame e := rfl

/-- The entry of a new table. -/
def tableEntry (ptAddr flags : UInt32) : UInt32 :=
  ptAddr ||| if flags &&& 0x4 != 0 then 0x7 else 0x3

/-- It is in use, and lets users in if the flags do. -/
theorem tableEntry_eq {ptAddr : UInt32} (haligned : PageAligned ptAddr) (flags : UInt32) :
    entryFrame (tableEntry ptAddr flags) = ptAddr ∧ present (tableEntry ptAddr flags) = true ∧
      user (tableEntry ptAddr flags) = user flags := by
  unfold tableEntry
  cases hflags : flags &&& 0x4 != 0
  all_goals
    refine ⟨entryFrame_or haligned (by decide), (present_or haligned (by decide)).trans rfl, ?_⟩
    exact (user_or haligned (by decide)).trans hflags.symm

section Stores

variable {tr : UInt32 → Option UInt32} {mem : PhysMem} {cr3 frame : UInt32}

/-- Clearing a table writes to its frame only. -/
theorem clearTable_eq (hframe : Reached tr frame) :
    ∃ mem', clearTable tr (frame + kernelOffset) mem = some mem' ∧
      (∀ i < 1024, entryAt mem' frame i = 0) ∧
      ∀ a, (∀ i < 1024, a ≠ entryAddr frame i) → mem' a = mem a := by
  refine ⟨storeAll mem ((List.range 1024).map fun i => (entryAddr frame i, 0)), ?_, ?_, ?_⟩
  · rw [clearTable, foldlM_storeVia]
    exact storeAllVia_eq_some fun i hi => hframe i (List.mem_range.mp hi)
  · intro i hi
    refine storeAll_of_agree (List.mem_map.mpr ⟨i, List.mem_range.mpr hi, rfl⟩) ?_
    intro w hw _
    obtain ⟨j, -, rfl⟩ := List.mem_map.mp hw
    rfl
  · intro a ha
    refine storeAll_of_ne ?_
    intro w hw heq
    obtain ⟨j, hj, rfl⟩ := List.mem_map.mp hw
    exact ha j (List.mem_range.mp hj) heq.symm

/-- A word of a frame that is reached is stored where it is. -/
theorem storeVia_reached (hframe : Reached tr frame) {i : Nat} (hi : i < 1024) (e : UInt32) :
    storeVia tr mem (entryAddr (frame + kernelOffset) i, e)
      = some (Function.update mem (entryAddr frame i) e) := by
  rw [storeVia, hframe i hi]
  rfl

theorem loadVia_reached (hframe : Reached tr frame) {i : Nat} (hi : i < 1024) :
    loadVia tr mem (entryAddr (frame + kernelOffset) i) = some (entryAt mem frame i) := by
  rw [loadVia, hframe i hi]
  rfl

/-- A new table is a frame that was cleared, and its entry. -/
theorem newTable_reached (hcr3 : Reached tr cr3) {kernelEnd : UInt32} {bitmap : Bitmap}
    (hframe : Reached tr (allocFrame kernelEnd bitmap).1) {slot : Nat} (hslot : slot < 1024)
    (flags : UInt32) :
    ∃ mem₁, newTable tr kernelEnd (cr3 + kernelOffset) flags slot bitmap mem
        = some (Function.update mem₁ (entryAddr cr3 slot)
          (tableEntry (allocFrame kernelEnd bitmap).1 flags), (allocFrame kernelEnd bitmap).2) ∧
      (∀ i < 1024, entryAt mem₁ (allocFrame kernelEnd bitmap).1 i = 0) ∧
      ∀ a, (∀ i < 1024, a ≠ entryAddr (allocFrame kernelEnd bitmap).1 i) → mem₁ a = mem a := by
  obtain ⟨mem₁, hclear, hempty, hkept⟩ := @clearTable_eq tr mem _ hframe
  refine ⟨mem₁, ?_, hempty, hkept⟩
  simp only [newTable, hclear, Option.bind_eq_bind, Option.bind_some, storeVia_reached hcr3 hslot]
  rfl

/-- The first half of `map_page` makes a table when there is none. -/
theorem ensureTable_reached (hcr3 : Reached tr cr3) {slot : Nat} (hslot : slot < 1024)
    (kernelEnd flags : UInt32) (bitmap : Bitmap) :
    ensureTable tr kernelEnd (cr3 + kernelOffset) flags slot bitmap mem
      = if !present (entryAt mem cr3 slot)
        then newTable tr kernelEnd (cr3 + kernelOffset) flags slot bitmap mem
        else some (mem, bitmap) := by
  rw [ensureTable, loadVia_reached hcr3 hslot]
  rfl

/-- The second half stores to the table. -/
theorem mapPage_reached (hcr3 : Reached tr cr3) {kernelEnd virt phys flags : UInt32}
    {bitmap bitmap₁ : Bitmap} {mem₁ : PhysMem}
    (htable : ensureTable tr kernelEnd (cr3 + kernelOffset) flags (pdIndex virt) bitmap mem
      = some (mem₁, bitmap₁))
    (hreached : Reached tr (entryFrame (entryAt mem₁ cr3 (pdIndex virt)))) :
    mapPage tr kernelEnd (cr3 + kernelOffset) virt phys flags bitmap mem
      = some (Function.update mem₁ (entryAddr (entryFrame (entryAt mem₁ cr3 (pdIndex virt)))
          (ptIndex virt)) (phys ||| flags), bitmap₁) := by
  show (ensureTable _ _ _ _ (pdIndex virt) _ _).bind _ = _
  rw [htable, Option.bind_some]
  show (loadVia tr mem₁ (entryAddr _ (pdIndex virt))).bind _ = _
  rw [loadVia_reached hcr3 (pdIndex_lt virt), Option.bind_some, and_not_0xFFF]
  show (storeVia tr mem₁ (entryAddr _ (ptIndex virt), _)).bind _ = _
  rw [storeVia_reached hreached (ptIndex_lt virt)]
  rfl

/-- **A new table** is entered empty: nothing else is mapped than before. -/
theorem newTable_eq (hdir : PageDirectory tr mem cr3) {slot : Nat} (hslot : slot ∈ tableSlots)
    (hfree : present (entryAt mem cr3 slot) = false) {kernelEnd : UInt32} {bitmap : Bitmap}
    (hfresh : FreshFrame tr mem cr3 (allocFrame kernelEnd bitmap).1) (flags : UInt32) :
    ∃ mem', newTable tr kernelEnd (cr3 + kernelOffset) flags slot bitmap mem
        = some (mem', (allocFrame kernelEnd bitmap).2) ∧
      PageDirectory tr mem' cr3 ∧
      (∀ i < 1024, entryAt mem' cr3 i
        = if i = slot then tableEntry (allocFrame kernelEnd bitmap).1 flags
          else entryAt mem cr3 i) ∧
      ∀ virt, pdIndex virt ∈ tableSlots → walk mem' cr3 virt = walk mem cr3 virt := by
  have haligned := pageAligned_allocFrame kernelEnd bitmap
  have hi : slot < 1024 := hdir.apart.lt slot hslot
  -- first the frame is cleared, which no walk sees, then it is entered into the free slot
  obtain ⟨mem₁, hnew, hempty, hkept⟩ :=
    @newTable_reached tr mem cr3 hdir.reached kernelEnd bitmap hfresh.reached slot hi flags
  obtain ⟨hapart₁, hunused₁, hdir₁, hwalk₁⟩ :=
    hdir.apart.walk_clear haligned hfresh.unused hkept
  obtain ⟨hframe, -, -⟩ := tableEntry_eq haligned flags
  rw [← hframe] at hunused₁ hempty
  obtain ⟨hapart₂, hwalk₂⟩ := hapart₁.walk_enter hslot ((hdir₁ slot hi).symm ▸ hfree) hunused₁
    fun i hi => by rw [hempty i hi]; rfl
  have hentry : ∀ i < 1024, entryAt (Function.update mem₁ (entryAddr cr3 slot)
      (tableEntry (allocFrame kernelEnd bitmap).1 flags)) cr3 i
      = if i = slot then tableEntry (allocFrame kernelEnd bitmap).1 flags
        else entryAt mem cr3 i := by
    intro i hi'
    rw [entryAt_update hdir.apart.aligned hdir.apart.aligned hi hi', hdir₁ i hi']
    simp only [true_and]
  refine ⟨_, hnew, ⟨hapart₂, hdir.reached, ?_⟩, hentry, ?_⟩
  · intro i hi' hp
    rw [hentry i (hdir.apart.lt i hi')] at hp ⊢
    split_ifs at hp ⊢
    · rw [hframe]
      exact hfresh.reached
    · exact hdir.tables_reached i hi' hp
  · intro virt hvirt
    exact (hwalk₂ virt hvirt).trans (hwalk₁ virt hvirt)

/-- The first half of `map_page` has made sure of a table: what it leaves. -/
inductive TableEnsured (kernelEnd flags cr3 : UInt32) (slot : Nat) (bitmap : Bitmap)
    (mem : PhysMem) : PhysMem × Bitmap → Prop
  | old {mem' : PhysMem} : present (entryAt mem cr3 slot) = true →
      (∀ i < 1024, entryAt mem' cr3 i = entryAt mem cr3 i) →
      TableEnsured kernelEnd flags cr3 slot bitmap mem (mem', bitmap)
  | new {mem' : PhysMem} : present (entryAt mem cr3 slot) = false →
      (∀ i < 1024, entryAt mem' cr3 i
        = if i = slot then tableEntry (allocFrame kernelEnd bitmap).1 flags
          else entryAt mem cr3 i) →
      TableEnsured kernelEnd flags cr3 slot bitmap mem (mem', (allocFrame kernelEnd bitmap).2)

theorem TableEnsured.present {kernelEnd flags : UInt32} {slot : Nat} {bitmap : Bitmap}
    {s : PhysMem × Bitmap} (h : TableEnsured kernelEnd flags cr3 slot bitmap mem s)
    (hslot : slot ∈ tableSlots) : present (entryAt s.1 cr3 slot) = true := by
  cases h with
  | old hp hentry =>
    rw [hentry slot (Nat.lt_succ_of_lt hslot)]
    exact hp
  | new _ hentry =>
    rw [hentry slot (Nat.lt_succ_of_lt hslot), if_pos rfl]
    exact (tableEntry_eq (pageAligned_allocFrame kernelEnd bitmap) flags).2.1

/-- It is about the directory only. -/
theorem TableEnsured.congr {kernelEnd flags : UInt32} {slot : Nat} {bitmap bitmap' : Bitmap}
    {mem' mem'' : PhysMem}
    (h : TableEnsured kernelEnd flags cr3 slot bitmap mem (mem', bitmap'))
    (hdir : ∀ i < 1024, entryAt mem'' cr3 i = entryAt mem' cr3 i) :
    TableEnsured kernelEnd flags cr3 slot bitmap mem (mem'', bitmap') := by
  cases h with
  | old hp hentry => exact .old hp fun i hi => (hdir i hi).trans (hentry i hi)
  | new hp hentry => exact .new hp fun i hi => (hdir i hi).trans (hentry i hi)

/-- **A table for a slot**: there is one, and nothing else is mapped than before. -/
theorem ensureTable_eq (hdir : PageDirectory tr mem cr3) {slot : Nat} (hslot : slot ∈ tableSlots)
    {kernelEnd : UInt32} {bitmap : Bitmap}
    (halloc : present (entryAt mem cr3 slot) = false →
      FreshFrame tr mem cr3 (allocFrame kernelEnd bitmap).1) (flags : UInt32) :
    ∃ mem' bitmap', ensureTable tr kernelEnd (cr3 + kernelOffset) flags slot bitmap mem
        = some (mem', bitmap') ∧
      PageDirectory tr mem' cr3 ∧
      TableEnsured kernelEnd flags cr3 slot bitmap mem (mem', bitmap') ∧
      ∀ virt, pdIndex virt ∈ tableSlots → walk mem' cr3 virt = walk mem cr3 virt := by
  rw [ensureTable_reached hdir.reached (hdir.apart.lt slot hslot)]
  cases hp : present (entryAt mem cr3 slot) with
  | true => exact ⟨mem, bitmap, rfl, hdir, .old hp fun _ _ => rfl, fun _ _ => rfl⟩
  | false =>
    obtain ⟨mem', hnew, hdir', hentry, hwalk⟩ := newTable_eq hdir hslot hp (halloc hp) flags
    exact ⟨mem', (allocFrame kernelEnd bitmap).2, hnew, hdir', .new hp hentry, hwalk⟩

end Stores

/-! ## What it does -/

/-- Two addresses of one page. -/
def SamePage (virt virt' : UInt32) : Prop := virt.toNat / 4096 = virt'.toNat / 4096

instance (virt virt' : UInt32) : Decidable (SamePage virt virt') :=
  inferInstanceAs (Decidable (_ = _))

theorem samePage_iff {virt virt' : UInt32} :
    SamePage virt virt' ↔ pdIndex virt = pdIndex virt' ∧ ptIndex virt = ptIndex virt' := by
  rw [SamePage, pdIndex_eq, pdIndex_eq, ptIndex_eq, ptIndex_eq]
  omega

theorem pdIndex_mem_tableSlots {virt : UInt32} (h : virt < 0xFFC00000) :
    pdIndex virt ∈ tableSlots := by
  rw [UInt32.lt_iff_toNat_lt] at h
  simp only [UInt32.reduceToNat] at h
  show pdIndex virt < 1023
  rw [pdIndex_eq]
  omega

section MapPage

variable {tr : UInt32 → Option UInt32} {mem : PhysMem} {cr3 : UInt32}
  (hdir : PageDirectory tr mem cr3) {virt phys flags : UInt32}
  (hvirt : virt < 0xFFC00000) (hpte : present (phys ||| flags) = true) {kernelEnd : UInt32}
  {bitmap : Bitmap}
  (halloc : present (entryAt mem cr3 (pdIndex virt)) = false →
    FreshFrame tr mem cr3 (allocFrame kernelEnd bitmap).1)

include hdir hvirt hpte halloc

/-- **What `map_page` leaves**: a table for the page, the entry `phys | flags` in it, and the walks of
    all other pages. -/
theorem mapPage_eq :
    ∃ mem' bitmap', mapPage tr kernelEnd (cr3 + kernelOffset) virt phys flags bitmap mem
        = some (mem', bitmap') ∧
      PageDirectory tr mem' cr3 ∧
      TableEnsured kernelEnd flags cr3 (pdIndex virt) bitmap mem (mem', bitmap') ∧
      ∀ virt', pdIndex virt' ∈ tableSlots → walk mem' cr3 virt'
        = if SamePage virt' virt
          then some ⟨entryAt mem' cr3 (pdIndex virt'), phys ||| flags,
            entryFrame (phys ||| flags) + (virt' &&& 0xFFF)⟩
          else walk mem cr3 virt' := by
  have hslot := pdIndex_mem_tableSlots hvirt
  obtain ⟨mem₁, bitmap₁, htable, hdir₁, hensured, hwalk₁⟩ :=
    ensureTable_eq hdir hslot halloc flags
  have hpresent₁ := hensured.present hslot
  have hreached := hdir₁.tables_reached _ hslot hpresent₁
  -- the store of the entry does not change the directory
  have hentry : ∀ i < 1024, entryAt (Function.update mem₁
      (entryAddr (entryFrame (entryAt mem₁ cr3 (pdIndex virt))) (ptIndex virt)) (phys ||| flags))
      cr3 i = entryAt mem₁ cr3 i := by
    intro i hi
    rw [entryAt_update (pageAligned_entryFrame _) hdir₁.apart.aligned (ptIndex_lt virt) hi]
    exact if_neg fun heq => hdir₁.apart.ne_directory _ hslot hpresent₁ heq.1.symm
  refine ⟨_, bitmap₁, mapPage_reached hdir.reached htable hreached,
    ⟨hdir₁.apart.congr fun i hi => hentry i (hdir₁.apart.lt i hi), hdir₁.reached,
      fun i hi hp => ?_⟩, hensured.congr hentry, fun virt' hvirt' => ?_⟩
  · rw [hentry i (hdir₁.apart.lt i hi)] at hp ⊢
    exact hdir₁.tables_reached i hi hp
  · rw [hdir₁.apart.walk_store hslot (ptIndex_lt virt) hpresent₁ hpte hvirt',
      hentry _ (pdIndex_lt virt')]
    by_cases hsame : SamePage virt' virt
    · obtain ⟨hpd, hpt⟩ := samePage_iff.mp hsame
      rw [if_pos hsame, if_pos ⟨hpd, hpt⟩, hpd]
    · rw [if_neg hsame, if_neg fun heq => hsame (samePage_iff.mpr heq)]
      exact hwalk₁ virt' hvirt'

end MapPage

/-- **`map_page`** maps its page and no other: with a fresh frame, where it needs one, it does not
    fault, the entry of the page is `phys | flags`, and the walks of all other pages outside the last
    slot are unchanged. -/
theorem mapPage_maps {tr : UInt32 → Option UInt32} {mem : PhysMem} {cr3 : UInt32}
    (hdir : PageDirectory tr mem cr3) {virt phys flags : UInt32}
    (hvirt : virt < 0xFFC00000) (hphys : PageAligned phys) (hflags : flags < 4096)
    (hpresent : present flags = true) {kernelEnd : UInt32} {bitmap : Bitmap}
    (halloc : present (entryAt mem cr3 (pdIndex virt)) = false →
      FreshFrame tr mem cr3 (allocFrame kernelEnd bitmap).1) :
    ∃ mem' bitmap', mapPage tr kernelEnd (cr3 + kernelOffset) virt phys flags bitmap mem
        = some (mem', bitmap') ∧
      (∀ virt', SamePage virt' virt → ∃ t, walk mem' cr3 virt' = some t ∧ t.pte = phys ||| flags) ∧
      ∀ virt', ¬ SamePage virt' virt → pdIndex virt' ≠ 1023 →
        walk mem' cr3 virt' = walk mem cr3 virt' := by
  have hslot := pdIndex_mem_tableSlots hvirt
  have hflags' : flags.toNat < 4096 := UInt32.lt_iff_toNat_lt.mp hflags
  have hpte : present (phys ||| flags) = true := (present_or hphys hflags').trans hpresent
  obtain ⟨mem', bitmap', hmap, -, -, hwalk⟩ := mapPage_eq hdir hvirt hpte halloc
  refine ⟨mem', bitmap', hmap, fun virt' hsame => ?_, fun virt' hsame hlast => ?_⟩
  · rw [hwalk virt' ((samePage_iff.mp hsame).1 ▸ hslot), if_pos hsame]
    exact ⟨_, rfl, rfl⟩
  · have hvirt' : pdIndex virt' ∈ tableSlots := by
      have hlt := pdIndex_lt virt'
      show pdIndex virt' < 1023
      omega
    rw [hwalk virt' hvirt', if_neg hsame]

/-- Every frame below 1 GiB at `KERNEL_OFFSET`. -/
def window (virt : UInt32) : Option UInt32 := some (virt - kernelOffset)

theorem reached_window {f : UInt32} (hf : PageAligned f) (hlow : f < 0x20000000) :
    Reached window f := by
  intro i hi
  have haddr := toNat_window hf hlow hi
  have hentry := toNat_entryAddr hf hi
  refine congrArg some (UInt32.toNat_inj.mp ?_)
  show (virtToPhys _).toNat = _
  rw [toNat_virtToPhys (by omega), haddr, hentry]
  omega

/-- The first page that `alloc_frame` looks at is free. -/
theorem allocFrame_zeroBitmap : (allocFrame smallKernel.addr zeroBitmap).1 = 0x140000 := by
  have hfree : 320 ∈ freeSet zeroBitmap := by
    rw [mem_freeSet, zeroBitmap, byteAt, Vector.getElem?_replicate]
    decide
  exact UInt32.toNat_inj.mp (allocFrame_320 hfree)

/-- Two tables, at 4 MiB for users and at 0xA0000000. -/
def twoTables : PhysMem := fun a =>
  if a = entryAddr 0x114000 1 then 0x201007 else if a = entryAddr 0x114000 640 then 0x200003 else 0

theorem entryAt_twoTables {i : Nat} (hi : i < 1024) :
    entryAt twoTables 0x114000 i = if i = 1 then 0x201007 else if i = 640 then 0x200003 else 0 := by
  have hinj : ∀ j, j < 1024 → (entryAddr 0x114000 i = entryAddr 0x114000 j ↔ i = j) := by
    intro j hj
    rw [entryAddr_inj (by decide) (by decide) hi hj]
    exact and_iff_right rfl
  show (if _ then _ else _) = _
  simp only [hinj 1 (by decide), hinj 640 (by decide)]

/-- Which of the slots are present. -/
theorem present_twoTables {i : Nat} (hi : i < 1024)
    (hp : present (entryAt twoTables 0x114000 i) = true) :
    i = 1 ∧ entryFrame (entryAt twoTables 0x114000 i) = 0x201000 ∨
      i = 640 ∧ entryFrame (entryAt twoTables 0x114000 i) = 0x200000 := by
  rw [entryAt_twoTables hi] at hp ⊢
  split_ifs at hp with hfirst hsecond
  · subst hfirst
    exact .inl ⟨rfl, by decide⟩
  · subst hsecond
    exact .inr ⟨rfl, by decide⟩
  · exact absurd hp (by decide)

theorem pageDirectory_twoTables : PageDirectory window twoTables 0x114000 := by
  have hlt : ∀ i ∈ tableSlots, i < 1024 := fun i hi => Nat.lt_succ_of_lt hi
  refine ⟨⟨by decide, hlt, fun i hi hp => ?_, fun i hi j hj hpi hpj heq => ?_⟩,
    reached_window (by decide) (by decide), fun i hi hp => ?_⟩
  · rcases present_twoTables (hlt i hi) hp with ⟨-, hframe⟩ | ⟨-, hframe⟩
    · rw [hframe]
      decide
    · rw [hframe]
      decide
  · rcases present_twoTables (hlt i hi) hpi with ⟨rfl, hframe⟩ | ⟨rfl, hframe⟩
    · rcases present_twoTables (hlt j hj) hpj with ⟨rfl, -⟩ | ⟨rfl, hframe'⟩
      · rfl
      · rw [hframe, hframe'] at heq
        exact absurd heq (by decide)
    · rcases present_twoTables (hlt j hj) hpj with ⟨rfl, hframe'⟩ | ⟨rfl, -⟩
      · rw [hframe, hframe'] at heq
        exact absurd heq (by decide)
      · rfl
  · rcases present_twoTables (hlt i hi) hp with ⟨-, hframe⟩ | ⟨-, hframe⟩
    · rw [hframe]
      exact reached_window (by decide) (by decide)
    · rw [hframe]
      exact reached_window (by decide) (by decide)

/-- A page in one of the tables, and one for which a third table is made.  A page of the other table
    stays. -/
theorem mapPage_maps_twoTables :
    (∃ mem' bitmap',
      mapPage window smallKernel.addr (0x114000 + kernelOffset) 0xA0000123 0x500000 0x3 zeroBitmap
        twoTables = some (mem', bitmap') ∧
      (∃ t, walk mem' 0x114000 0xA0000456 = some t ∧ t.pte = 0x500003) ∧
      walk mem' 0x114000 0x00401000 = walk twoTables 0x114000 0x00401000) ∧
    ∃ mem' bitmap',
      mapPage window smallKernel.addr (0x114000 + kernelOffset) 0xB0000123 0x500000 0x7 zeroBitmap
        twoTables = some (mem', bitmap') ∧
      (∃ t, walk mem' 0x114000 0xB0000456 = some t ∧ t.pte = 0x500007) ∧
      walk mem' 0x114000 0x00401000 = walk twoTables 0x114000 0x00401000 := by
  have hthere : present (entryAt twoTables 0x114000 (pdIndex 0xA0000123)) = true := by
    rw [entryAt_twoTables (by decide)]
    decide
  have hfresh : FreshFrame window twoTables 0x114000 (allocFrame smallKernel.addr zeroBitmap).1 := by
    rw [allocFrame_zeroBitmap]
    refine ⟨reached_window (by decide) (by decide), by decide, fun i hi hp => ?_⟩
    rcases present_twoTables (Nat.lt_succ_of_lt hi) hp with ⟨-, hframe⟩ | ⟨-, hframe⟩
    · rw [hframe]
      decide
    · rw [hframe]
      decide
  constructor
  · obtain ⟨mem', bitmap', hmap, hpage, hothers⟩ := @mapPage_maps window twoTables
      0x114000 pageDirectory_twoTables 0xA0000123 0x500000 0x3 (by decide) (by decide) (by decide)
      (by decide) smallKernel.addr zeroBitmap fun hnone => absurd (hthere.symm.trans hnone) (by decide)
    exact ⟨mem', bitmap', hmap, hpage 0xA0000456 (by decide),
      hothers 0x00401000 (by decide) (by decide)⟩
  · obtain ⟨mem', bitmap', hmap, hpage, hothers⟩ := @mapPage_maps window twoTables
      0x114000 pageDirectory_twoTables 0xB0000123 0x500000 0x7 (by decide) (by decide) (by decide)
      (by decide) smallKernel.addr zeroBitmap fun _ => hfresh
    exact ⟨mem', bitmap', hmap, hpage 0xB0000456 (by decide),
      hothers 0x00401000 (by decide) (by decide)⟩

end MyOs.Paging
