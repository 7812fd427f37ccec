/-
  `alloc_frame` and `map_page` behind `setup_paging`: frames of tables and frames of others.

  Both take frames from the bitmap, and a caller of `alloc_frame` stores to what it got, at
  `KERNEL_OFFSET`.  A run is any sequence of such calls and stores, each through the tables as the calls
  before it left them; `held` are the frames that the callers got.

  1. **What a call writes** (`mapPage_kept`): the directory and the table of its address, nothing else.
  2. **The kernel's window** (`KernelSpace`): tables below 512 MiB, behind a window that no call maps.
  3. **Invariant** (`Separate`): the frames of the callers are apart from each other, from the tables
     and from the free frames, and hold what was stored.
  4. **Runs** (`frames_separate`): from boot on, the mappings are those of the calls of `map_page`
     alone, the contents those of the stores alone.
-/
import MyOs.Paging.MapFailure
import MyOs.Paging.MapRuns

namespace MyOs.Paging

open MyOs.Lib MyOs.Lib.Mmu MyOs.Lib.Stores MyOs.Lib.GuardedRuns

/-! ## The program -/

structure FrameState where
  mem : PhysMem
  bitmap : Bitmap
  /-- What `alloc_frame` returned, but for zeros. -/
  held : List UInt32

/-- A call of `alloc_frame`, one of `map_page`, and a store to a word of a frame. -/
inductive FrameOp where
  | take
  | map (c : MapCall)
  | store (frame : UInt32) (i : Nat) (v : UInt32)

def frameStep (L : Boot.BootLayout) (s : FrameState) : FrameOp → Option FrameState
  | .take =>
    let (frame, bitmap) := allocFrame L.kernelEnd.addr s.bitmap
    some ⟨s.mem, bitmap, if frame = 0 then s.held else frame :: s.held⟩
  | .map c => (mapPages (translateVirt s.mem L.directory) L.kernelEnd.addr L.bootPageDirectory
    (s.mem, s.bitmap) c).map fun s' => ⟨s'.1, s'.2, s.held⟩
  | .store frame i v => (storeVia (translateVirt s.mem L.directory) s.mem
    (entryAddr (frame + kernelOffset) i, v)).map fun mem => { s with mem }

/-- The kernel's window and the last slot are not mapped anew; a table that is needed gets a frame
    below 512 MiB; and only frames that were returned, below 512 MiB, are stored to. -/
def FrameOp.Valid (L : Boot.BootLayout) (s : FrameState) : FrameOp → Prop
  | .take => True
  | .map c => (c.virt < 0xC0000000 ∨ 0xE0000000 ≤ c.virt) ∧ c.virt < 0xFFC00000 ∧
    present c.flags = true ∧ (present (entryAt s.mem L.directory (pdIndex c.virt)) = false →
      (allocFrame L.kernelEnd.addr s.bitmap).1 ≠ 0 ∧
        (allocFrame L.kernelEnd.addr s.bitmap).1 < 0x20000000)
  | .store frame i _ => frame ∈ s.held ∧ frame < 0x20000000 ∧ i < 1024

/-- The calls of `map_page`. -/
def mapCalls : List FrameOp → List MapCall :=
  List.filterMap fun
    | .map c => some c
    | _ => none

/-- The words of the frames, by the stores alone. -/
def contents (d : UInt32 → Nat → UInt32) (ops : List FrameOp) : UInt32 → Nat → UInt32 :=
  ops.foldl (fun d op => match op with
    | .store frame i v => fun frame' i' => if frame' = frame ∧ i' = i then v else d frame' i'
    | _ => d) d

/-! ## What a call writes -/

section Kept

variable {tr : UInt32 → Option UInt32} {mem mem' : PhysMem} {cr3 frame kernelEnd flags : UInt32}
  {bitmap bitmap' : Bitmap}

/-- A new table is written, and its entry in the directory. -/
theorem ensureTable_kept (hdir : PageDirectory tr mem cr3) {slot : Nat} (hslot : slot ∈ tableSlots)
    (halloc : present (entryAt mem cr3 slot) = false → Reached tr (allocFrame kernelEnd bitmap).1)
    (hrun : ensureTable tr kernelEnd (cr3 + kernelOffset) flags slot bitmap mem
      = some (mem', bitmap'))
    (hframe : PageAligned frame) (hne : frame ≠ cr3)
    (htable : frame ≠ entryFrame (entryAt mem' cr3 slot)) :
    ∀ i < 1024, entryAt mem' frame i = entryAt mem frame i := by
  intro i hi
  have hlt := hdir.apart.lt slot hslot
  have haligned := pageAligned_allocFrame kernelEnd bitmap
  rw [ensureTable_reached hdir.reached hlt] at hrun
  cases hp : present (entryAt mem cr3 slot) with
  | true =>
    rw [hp, Bool.not_true, if_neg Bool.false_ne_true] at hrun
    obtain ⟨rfl, -⟩ := Prod.mk.inj (Option.some.inj hrun)
    rfl
  | false =>
    rw [hp, Bool.not_false, if_pos rfl] at hrun
    obtain ⟨mem₁, hnew, -, hkept⟩ :=
      @newTable_reached tr mem cr3 hdir.reached kernelEnd bitmap (halloc hp) slot hlt flags
    obtain ⟨rfl, -⟩ := Prod.mk.inj (Option.some.inj (hnew.symm.trans hrun))
    -- the entry leads to the new table
    obtain ⟨hnewFrame, -, -⟩ := tableEntry_eq haligned flags
    have hentry : entryAt (Function.update mem₁ (entryAddr cr3 slot)
        (tableEntry (allocFrame kernelEnd bitmap).1 flags)) cr3 slot
        = tableEntry (allocFrame kernelEnd bitmap).1 flags := Function.update_self ..
    rw [hentry, hnewFrame] at htable
    rw [entryAt_update hdir.apart.aligned hframe hlt hi, if_neg fun h => hne h.1]
    exact hkept _ fun j hj heq => htable ((entryAddr_inj hframe haligned hi hj).mp heq).1

/-- **Nothing but the directory and the table** is written by `map_page`. -/
theorem mapPage_kept {virt phys : UInt32} (hdir : PageDirectory tr mem cr3)
    (hvirt : virt < 0xFFC00000)
    (halloc : present (entryAt mem cr3 (pdIndex virt)) = false →
      FreshFrame tr mem cr3 (allocFrame kernelEnd bitmap).1)
    (hrun : mapPage tr kernelEnd (cr3 + kernelOffset) virt phys flags bitmap mem
      = some (mem', bitmap'))
    (hframe : PageAligned frame) (hne : frame ≠ cr3)
    (htable : frame ≠ entryFrame (entryAt mem' cr3 (pdIndex virt))) :
    ∀ i < 1024, entryAt mem' frame i = entryAt mem frame i := by
  have hslot := pdIndex_mem_tableSlots hvirt
  obtain ⟨mem₁, bitmap₁, hensure, hdir₁, hensured, -⟩ := ensureTable_eq hdir hslot halloc flags
  have hpresent := hensured.present hslot
  have hmap := @mapPage_reached tr mem cr3 hdir.reached kernelEnd virt phys flags bitmap bitmap₁
    mem₁ hensure (hdir₁.tables_reached _ hslot hpresent)
  obtain ⟨rfl, -⟩ := Prod.mk.inj (Option.some.inj (hmap.symm.trans hrun))
  have haligned := pageAligned_entryFrame (entryAt mem₁ cr3 (pdIndex virt))
  -- the entry of the page is not in the directory
  have hentry : entryAt (Function.update mem₁ (entryAddr (entryFrame (entryAt mem₁ cr3
      (pdIndex virt))) (ptIndex virt)) (phys ||| flags)) cr3 (pdIndex virt)
      = entryAt mem₁ cr3 (pdIndex virt) := by
    rw [entryAt_update haligned hdir₁.apart.aligned (ptIndex_lt virt) (pdIndex_lt virt)]
    exact if_neg fun h => hdir₁.apart.ne_directory _ hslot hpresent h.1.symm
  rw [hentry] at htable
  intro i hi
  rw [entryAt_update haligned hframe (ptIndex_lt virt) hi, if_neg fun h => htable h.1]
  exact ensureTable_kept hdir hslot (fun hp => (halloc hp).reached) hensure hframe hne htable i hi

end Kept

/-! ## The kernel's window -/

/-- The window maps the first 512 MiB. -/
def KernelWindow (mem : PhysMem) (cr3 : UInt32) : Prop :=
  ∀ virt : UInt32, 0xC0000000 ≤ virt → virt < 0xE0000000 →
    translateVirt mem cr3 virt = some (virtToPhys virt)

section Window

variable {mem mem' : PhysMem} {cr3 : UInt32}

/-- What is in the window is in a slot of tables. -/
theorem pdIndex_window {virt : UInt32} (h : virt < 0xE0000000) : pdIndex virt ∈ tableSlots :=
  pdIndex_mem_tableSlots (UInt32.lt_trans h (by decide))

/-- The frames of the first 512 MiB are reached. -/
theorem KernelWindow.reached (h : KernelWindow mem cr3) {f : UInt32} (hf : PageAligned f)
    (hlow : f < 0x20000000) : Reached (translateVirt mem cr3) f := by
  intro i hi
  have haddr := toNat_window hf hlow hi
  have hentry := toNat_entryAddr hf hi
  rw [UInt32.lt_iff_toNat_lt] at hlow
  simp only [UInt32.reduceToNat] at hlow
  unfold PageAligned at hf
  rw [h (entryAddr (f + kernelOffset) i)
    (by rw [UInt32.le_iff_toNat_le, haddr]; simp only [UInt32.reduceToNat]; omega)
    (by rw [UInt32.lt_iff_toNat_lt, haddr]; simp only [UInt32.reduceToNat]; omega)]
  refine congrArg some (UInt32.toNat_inj.mp ?_)
  rw [toNat_virtToPhys (by omega), haddr, hentry]
  omega

/-- The walks of the window decide. -/
theorem KernelWindow.congr (h : KernelWindow mem cr3)
    (hwalk : ∀ virt : UInt32, 0xC0000000 ≤ virt → virt < 0xE0000000 →
      walk mem' cr3 virt = walk mem cr3 virt) : KernelWindow mem' cr3 := by
  intro virt hlo hhi
  rw [translateVirt, hwalk virt hlo hhi]
  exact h virt hlo hhi

end Window

/-- A page of the window is none of a page outside of it. -/
theorem not_samePage_window {virt virt' : UInt32} (hlo : 0xC0000000 ≤ virt) (hhi : virt < 0xE0000000)
    (hout : virt' < 0xC0000000 ∨ 0xE0000000 ≤ virt') : ¬ SamePage virt virt' := by
  rw [UInt32.le_iff_toNat_le, UInt32.lt_iff_toNat_lt] at *
  simp only [UInt32.reduceToNat] at hlo hhi hout
  unfold SamePage
  omega

/-- The tables of the other slots, through another mapping. -/
theorem Stands.retranslate {tr tr' : UInt32 → Option UInt32} {cr3 : UInt32} {m : PhysMem × Bitmap}
    {t : Levels Nat Nat Bool UInt32} (h : Stands tr cr3 m t) (hreached : Reached tr' cr3)
    (htables : ∀ i ∈ tableSlots, present (entryAt m.1 cr3 i) = true →
      Reached tr' (entryFrame (entryAt m.1 cr3 i))) : Stands tr' cr3 m t :=
  ⟨⟨h.directory.apart, hreached, htables⟩, h.reserved, h.upper, h.lower⟩

/-- Tables below 512 MiB, and the window that they are reached through. -/
structure KernelSpace (L : Boot.BootLayout) (m : PhysMem × Bitmap)
    (t : Levels Nat Nat Bool UInt32) : Prop where
  stands : Stands (translateVirt m.1 L.directory) L.directory m t
  low : ∀ i ∈ tableSlots, present (entryAt m.1 L.directory i) = true →
    entryFrame (entryAt m.1 L.directory i) < 0x20000000
  window : KernelWindow m.1 L.directory

theorem directory_lt (L : Boot.BootLayout) : L.directory < 0x20000000 := by
  obtain ⟨-, hhigh, -⟩ := L.directory_bounds
  rw [UInt32.lt_iff_toNat_lt]
  simp only [UInt32.reduceToNat]
  omega

/-- No frame of `alloc_frame` is the directory. -/
theorem ne_directory {L : Boot.BootLayout} {f : UInt32}
    (h : startIndex L.kernelEnd.addr ≤ f.toNat / 4096) : f ≠ L.directory := by
  have hbitmap : bitmapSize = 131072 := rfl
  obtain ⟨hlow, -, hend⟩ := startIndex_bounds L.kernelEnd
  obtain ⟨-, -, hbehind⟩ := L.directory_bounds
  rintro rfl
  omega

theorem directory_lt_startIndex (L : Boot.BootLayout) :
    L.directory.toNat < 4096 * startIndex L.kernelEnd.addr := by
  have hbitmap : bitmapSize = 131072 := rfl
  obtain ⟨hlow, -, hend⟩ := startIndex_bounds L.kernelEnd
  obtain ⟨-, -, hbehind⟩ := L.directory_bounds
  omega

section Space

variable {L : Boot.BootLayout} {m m' : PhysMem × Bitmap} {t t' : Levels Nat Nat Bool UInt32}

/-- A window and low tables are enough for any mapping. -/
theorem KernelSpace.of_stands {tr : UInt32 → Option UInt32} (h : Stands tr L.directory m t)
    (hlow : ∀ i ∈ tableSlots, present (entryAt m.1 L.directory i) = true →
      entryFrame (entryAt m.1 L.directory i) < 0x20000000)
    (hwindow : KernelWindow m.1 L.directory) : KernelSpace L m t where
  stands := h.retranslate (hwindow.reached L.pageAligned_directory (directory_lt L))
    fun i hi hp => hwindow.reached (pageAligned_entryFrame _) (hlow i hi hp)
  low := hlow
  window := hwindow

/-- A page that is free belongs to no table. -/
theorem KernelSpace.unused (h : KernelSpace L m t) {f : UInt32} (hfree : f.toNat / 4096 ∈ freeSet m.2)
    (hge : startIndex L.kernelEnd.addr ≤ f.toNat / 4096) : Unused tableSlots m.1 L.directory f :=
  ⟨ne_directory hge, fun i hi hp heq => h.stands.reserved i hi hp (heq ▸ hfree)⟩

/-- The bitmap loses pages. -/
theorem KernelSpace.of_subset (h : KernelSpace L m t) {b : Bitmap} (hsubset : freeSet b ⊆ freeSet m.2) :
    KernelSpace L (m.1, b) t where
  stands :=
    ⟨h.stands.directory, fun i hi hp hmem => h.stands.reserved i hi hp (hsubset hmem),
      h.stands.upper, h.stands.lower⟩
  low := h.low
  window := h.window

/-- Stores to an unused frame. -/
theorem KernelSpace.store (h : KernelSpace L m t) {f : UInt32} (hf : PageAligned f)
    (hunused : Unused tableSlots m.1 L.directory f) {i : Nat} (hi : i < 1024) (v : UInt32) :
    KernelSpace L (Function.update m.1 (entryAddr f i) v, m.2) t ∧
      ∀ j < 1024, entryAt (Function.update m.1 (entryAddr f i) v) L.directory j
        = entryAt m.1 L.directory j := by
  have hkept : ∀ a, (∀ j < 1024, a ≠ entryAddr f j) →
      Function.update m.1 (entryAddr f i) v a = m.1 a :=
    fun a ha => Function.update_of_ne (ha i hi) _ _
  obtain ⟨hapart, -, hdir, hwalk⟩ := h.stands.directory.apart.walk_clear hf hunused hkept
  have hlt : ∀ i ∈ tableSlots, i < 1024 := h.stands.directory.apart.lt
  have hstands : Stands (translateVirt m.1 L.directory) L.directory
      (Function.update m.1 (entryAddr f i) v, m.2) t := by
    refine ⟨⟨hapart, h.stands.directory.reached, fun j hj hp => ?_⟩, fun j hj hp => ?_, fun j hj => ?_,
      fun virt hvirt => ?_⟩
    · rw [hdir j (hlt j hj)] at hp ⊢
      exact h.stands.directory.tables_reached j hj hp
    · rw [hdir j (hlt j hj)] at hp ⊢
      exact h.stands.reserved j hj hp
    · rw [hdir j (hlt j hj)]
      exact h.stands.upper j hj
    · rw [hwalk virt hvirt]
      exact h.stands.lower virt hvirt
  refine ⟨.of_stands hstands (fun j hj hp => ?_) ?_, hdir⟩
  · rw [hdir j (hlt j hj)] at hp ⊢
    exact h.low j hj hp
  · exact h.window.congr fun virt _ hhi => hwalk virt (pdIndex_window hhi)

/-- A table that is made sure of is in the slot, and is an old one or was a free frame. -/
theorem table_of_ensured {flags : UInt32} {slot : Nat}
    (hensured : TableEnsured L.kernelEnd.addr flags L.directory slot m.2 m.1 m')
    (halloc : present (entryAt m.1 L.directory slot) = false →
      (allocFrame L.kernelEnd.addr m.2).1 ≠ 0 ∧ (allocFrame L.kernelEnd.addr m.2).1 < 0x20000000) :
    ∀ i ∈ tableSlots, present (entryAt m'.1 L.directory i) = true →
      (present (entryAt m.1 L.directory i) = true ∧
        entryFrame (entryAt m'.1 L.directory i) = entryFrame (entryAt m.1 L.directory i)) ∨
      (entryFrame (entryAt m'.1 L.directory i)).toNat / 4096 ∈ freeSet m.2 ∧
        entryFrame (entryAt m'.1 L.directory i) < 0x20000000 := by
  intro i hi hp
  cases hensured with
  | old _ hentry =>
    rw [hentry i (Nat.lt_succ_of_lt hi)] at hp ⊢
    exact .inl ⟨hp, rfl⟩
  | new hfree hentry =>
    rw [hentry i (Nat.lt_succ_of_lt hi)] at hp ⊢
    split_ifs at hp ⊢ with hhere
    · obtain ⟨hne, hlow⟩ := halloc hfree
      obtain ⟨p, hpage, -, haddr⟩ := mem_allocFrames (virtToPhys_ge L.kernelEnd)
        (allocFrame_mem_allocFrames L.kernelEnd.addr 0 m.2) hne
      rw [(tableEntry_eq (pageAligned_allocFrame L.kernelEnd.addr m.2) flags).1]
      refine .inr ⟨?_, hlow⟩
      rw [haddr, Nat.mul_div_cancel_left p (by decide)]
      exact hpage
    · exact .inl ⟨hp, rfl⟩

end Space

/-- The levels that are in a memory. -/
def levelsOf (mem : PhysMem) (cr3 : UInt32) : Levels Nat Nat Bool UInt32 where
  upper i := if present (entryAt mem cr3 i) then some (user (entryAt mem cr3 i)) else none
  lower p := (walk mem cr3 (UInt32.ofNat (4096 * p))).map Translation.pte

/-- The entry of a page does not depend on the offset. -/
theorem levelsOf_lower (mem : PhysMem) (cr3 virt : UInt32) :
    (levelsOf mem cr3).lower (page virt) = (walk mem cr3 virt).map Translation.pte := by
  have hlt : virt.toNat < 2 ^ 32 := virt.toNat_lt
  have hsame : SamePage (UInt32.ofNat (4096 * page virt)) virt := by
    unfold SamePage page
    rw [UInt32.toNat_ofNat']
    omega
  obtain ⟨hpd, hpt⟩ := samePage_iff.mp hsame
  show (walk mem cr3 _).map _ = _
  unfold walk
  dsimp only
  rw [hpd, hpt]
  split_ifs
  all_goals rfl

/-- A memory with tables that are apart, reserved and low. -/
theorem KernelSpace.of_apart {L : Boot.BootLayout} {mem : PhysMem} {b : Bitmap}
    (hapart : Apart tableSlots mem L.directory) (hwindow : KernelWindow mem L.directory)
    (htables : ∀ i ∈ tableSlots, present (entryAt mem L.directory i) = true →
      entryFrame (entryAt mem L.directory i) < 0x20000000 ∧
        (entryFrame (entryAt mem L.directory i)).toNat / 4096 ∉ freeSet b) :
    KernelSpace L (mem, b) (levelsOf mem L.directory) where
  stands :=
    { directory :=
        { apart := hapart
          reached := hwindow.reached L.pageAligned_directory (directory_lt L)
          tables_reached := fun i hi hp =>
            hwindow.reached (pageAligned_entryFrame _) (htables i hi hp).1 }
      reserved := fun i hi hp => (htables i hi hp).2
      upper := fun _ _ => rfl
      lower := fun virt _ => (levelsOf_lower _ _ virt).symm }
  low := fun i hi hp => (htables i hi hp).1
  window := hwindow

section Map

variable {L : Boot.BootLayout} {s : FrameState} {t : Levels Nat Nat Bool UInt32} {c : MapCall}

/-- The conditions of a call, in the mapping that is in force. -/
theorem KernelSpace.allocates (h : KernelSpace L (s.mem, s.bitmap) t)
    (hvalid : (FrameOp.map c).Valid L s) :
    Allocates (translateVirt s.mem L.directory) L.kernelEnd.addr L.directory (s.mem, s.bitmap) c :=
  fun hp => ⟨(hvalid.2.2.2 hp).1,
    h.window.reached (pageAligned_allocFrame _ _) (hvalid.2.2.2 hp).2⟩

/-- **`map_page`** keeps the window and the low tables, and all words of frames that are not tables. -/
theorem KernelSpace.map (h : KernelSpace L (s.mem, s.bitmap) t) (hvalid : (FrameOp.map c).Valid L s) :
    ∃ mem' bitmap', frameStep L s (.map c) = some ⟨mem', bitmap', s.held⟩ ∧
      KernelSpace L (mem', bitmap') (levels t [c]) ∧
      TableEnsured L.kernelEnd.addr c.flags L.directory (pdIndex c.virt) s.bitmap s.mem
        (mem', bitmap') ∧
      freeSet bitmap' ⊆ freeSet s.bitmap ∧
      ∀ f, PageAligned f → f ≠ L.directory →
        f ≠ entryFrame (entryAt mem' L.directory (pdIndex c.virt)) →
        ∀ i < 1024, entryAt mem' f i = entryAt s.mem f i := by
  obtain ⟨hout, hvirt, hpresent, halloc⟩ := hvalid
  have hallocates := h.allocates ⟨hout, hvirt, hpresent, halloc⟩
  have hk := virtToPhys_ge L.kernelEnd
  have hcr3 := directory_lt_startIndex L
  have hfresh : present (entryAt s.mem L.directory (pdIndex c.virt)) = false →
      FreshFrame (translateVirt s.mem L.directory) s.mem L.directory
        (allocFrame L.kernelEnd.addr s.bitmap).1 :=
    fun hp => (h.stands.fresh hk hcr3 (hallocates hp).1 (hallocates hp).2).1
  obtain ⟨⟨mem', bitmap'⟩, hmap, hstands⟩ :=
    mapPages_refines hk hcr3 h.stands hvirt hpresent hallocates
  obtain ⟨mem'', bitmap'', hmap', -, hensured, hwalk⟩ :=
    mapPage_eq h.stands.directory hvirt (present_or_flags c.phys hpresent) hfresh
  obtain ⟨rfl, rfl⟩ := Prod.mk.inj (Option.some.inj (hmap'.symm.trans hmap))
  refine ⟨mem'', bitmap'', ?_, .of_stands hstands (fun i hi hp => ?_) ?_, hensured, ?_,
    fun f hf hne htable => mapPage_kept h.stands.directory hvirt hfresh hmap' hf hne htable⟩
  · rw [← bootPageDirectory_eq] at hmap
    show (mapPages _ _ _ _ c).map _ = _
    rw [hmap]
    rfl
  · rcases table_of_ensured (L := L) (m := (s.mem, s.bitmap)) hensured halloc i hi hp with
      ⟨hold, heq⟩ | ⟨-, hlow⟩
    · rw [heq]
      exact h.low i hi hold
    · exact hlow
  · refine h.window.congr fun virt hlo hhi => ?_
    rw [hwalk virt (pdIndex_window hhi), if_neg (not_samePage_window hlo hhi hout)]
  · cases hensured with
    | old _ _ => exact Set.Subset.refl _
    | new hfree _ => exact (h.stands.fresh hk hcr3 (hallocates hfree).1 (hallocates hfree).2).2.2

end Map

/-! ## The invariant -/

/-- The callers' frames are apart from each other, from the tables and from the free frames, and
    together with these they hold what was stored.  The free pages are among `free`. -/
structure Separate (L : Boot.BootLayout) (free : Set Nat) (t : Levels Nat Nat Bool UInt32)
    (d : UInt32 → Nat → UInt32) (s : FrameState) : Prop where
  space : KernelSpace L (s.mem, s.bitmap) t
  subset : freeSet s.bitmap ⊆ free
  nodup : s.held.Nodup
  aligned : ∀ f ∈ s.held, PageAligned f
  page : ∀ f ∈ s.held, f.toNat / 4096 ∈ free ∧ startIndex L.kernelEnd.addr ≤ f.toNat / 4096
  not_free : ∀ f ∈ s.held, f.toNat / 4096 ∉ freeSet s.bitmap
  unused : ∀ f ∈ s.held, Unused tableSlots s.mem L.directory f
  words : ∀ f, PageAligned f → startIndex L.kernelEnd.addr ≤ f.toNat / 4096 →
    (f ∈ s.held ∨ f.toNat / 4096 ∈ freeSet s.bitmap) → ∀ i < 1024, entryAt s.mem f i = d f i

section Steps

variable {L : Boot.BootLayout} {s : FrameState} {free : Set Nat} {t : Levels Nat Nat Bool UInt32}
  {d : UInt32 → Nat → UInt32}

theorem frameStep_take (L : Boot.BootLayout) (s : FrameState) :
    frameStep L s .take
      = some ⟨s.mem, (allocFrame L.kernelEnd.addr s.bitmap).2,
        if (allocFrame L.kernelEnd.addr s.bitmap).1 = 0 then s.held
        else (allocFrame L.kernelEnd.addr s.bitmap).1 :: s.held⟩ := rfl

/-- **`alloc_frame`**: a free frame becomes one of the caller. -/
theorem Separate.take (h : Separate L free t d s) :
    ∃ s', frameStep L s .take = some s' ∧ Separate L free t d s' := by
  refine ⟨_, frameStep_take L s, ?_⟩
  rcases allocFrame_servesFirst (virtToPhys_ge L.kernelEnd) s.bitmap with
    ⟨p, hleast, hne, haddr, hfree⟩ | ⟨-, heq⟩
  · rw [if_neg hne]
    have haligned := pageAligned_allocFrame L.kernelEnd.addr s.bitmap
    have hp : (allocFrame L.kernelEnd.addr s.bitmap).1.toNat / 4096 = p := by
      rw [haddr, Nat.mul_div_cancel_left p (by decide)]
    generalize (allocFrame L.kernelEnd.addr s.bitmap).1 = frame at hne haligned hp ⊢
    obtain ⟨⟨hpfree, hpge⟩, -⟩ := hleast
    have hsubset : freeSet (allocFrame L.kernelEnd.addr s.bitmap).2 ⊆ freeSet s.bitmap := by
      rw [hfree]
      exact Set.sdiff_subset
    have hge : startIndex L.kernelEnd.addr ≤ frame.toNat / 4096 := hp.symm ▸ hpge
    have hpage : frame.toNat / 4096 ∈ freeSet s.bitmap := hp.symm ▸ hpfree
    have hnew : frame ∉ s.held := fun hmem => h.not_free frame hmem hpage
    refine ⟨h.space.of_subset hsubset, hsubset.trans h.subset,
      List.nodup_cons.mpr ⟨hnew, h.nodup⟩, List.forall_mem_cons.mpr ⟨haligned, h.aligned⟩,
      List.forall_mem_cons.mpr ⟨⟨h.subset hpage, hge⟩, h.page⟩,
      List.forall_mem_cons.mpr ⟨?_, fun f hf hmem => h.not_free f hf (hsubset hmem)⟩,
      List.forall_mem_cons.mpr ⟨h.space.unused hpage hge, h.unused⟩, ?_⟩
    · rw [hp, hfree]
      exact fun hmem => hmem.2 rfl
    · -- the new frame was free, and the others were held or free before
      intro f hf hfge hmem
      refine h.words f hf hfge ?_
      rcases hmem with hheld | hfree'
      · rcases List.mem_cons.mp hheld with rfl | hheld
        · exact .inr hpage
        · exact .inl hheld
      · exact .inr (hsubset hfree')
  · rw [heq]
    exact h

/-- **`map_page`**: one mapping, and the frames of the callers stay. -/
theorem Separate.map (h : Separate L free t d s) {c : MapCall}
    (hvalid : (FrameOp.map c).Valid L s) :
    ∃ s', frameStep L s (.map c) = some s' ∧ Separate L free (levels t [c]) d s' := by
  obtain ⟨mem', bitmap', hstep, hspace, hensured, hsubset, hkept⟩ := h.space.map hvalid
  have hslot := pdIndex_mem_tableSlots hvalid.2.1
  have hentered := hensured.present hslot
  -- a table is an old one, or was a free frame
  have hunused : ∀ f ∈ s.held, Unused tableSlots mem' L.directory f := by
    refine fun f hf => ⟨(h.unused f hf).ne_directory, fun i hi hp heq => ?_⟩
    rcases table_of_ensured (L := L) (m := (s.mem, s.bitmap)) hensured hvalid.2.2.2 i hi hp
      with ⟨hold, hframe⟩ | ⟨hfree, -⟩
    · exact (h.unused f hf).ne_table i hi hold (hframe.symm.trans heq)
    · exact h.not_free f hf (heq ▸ hfree)
  refine ⟨_, hstep, hspace, hsubset.trans h.subset, h.nodup, h.aligned, h.page,
    fun f hf hmem => h.not_free f hf (hsubset hmem), hunused, fun f hf hge hmem i hi => ?_⟩
  have htable : f ≠ entryFrame (entryAt mem' L.directory (pdIndex c.virt)) := by
    rcases hmem with hheld | hfree
    · exact ((hunused f hheld).ne_table _ hslot hentered).symm
    · exact ((hspace.unused hfree hge).ne_table _ hslot hentered).symm
  rw [hkept f hf (ne_directory hge) htable i hi]
  exact h.words f hf hge (hmem.imp_right fun hfree => hsubset hfree) i hi

/-- **A store** of a caller lands in its frame. -/
theorem Separate.store (h : Separate L free t d s) {frame : UInt32} {i : Nat} {v : UInt32}
    (hvalid : (FrameOp.store frame i v).Valid L s) :
    ∃ s', frameStep L s (.store frame i v) = some s' ∧
      Separate L free t (contents d [.store frame i v]) s' := by
  obtain ⟨hheld, hlow, hi⟩ := hvalid
  have haligned := h.aligned frame hheld
  have hstep : frameStep L s (.store frame i v)
      = some { s with mem := Function.update s.mem (entryAddr frame i) v } := by
    show (storeVia _ _ _).map _ = _
    rw [storeVia_reached (h.space.window.reached haligned hlow) hi]
    rfl
  obtain ⟨hspace, hdir⟩ := h.space.store haligned (h.unused frame hheld) hi v
  refine ⟨_, hstep, hspace, h.subset, h.nodup, h.aligned, h.page, h.not_free, fun f hf => ?_,
    fun f hf hge hmem j hj => ?_⟩
  · refine ⟨(h.unused f hf).ne_directory, fun j hj hp => ?_⟩
    rw [hdir j (Nat.lt_succ_of_lt hj)] at hp ⊢
    exact (h.unused f hf).ne_table j hj hp
  · rw [entryAt_update haligned hf hi hj]
    show _ = if f = frame ∧ j = i then v else d f j
    rw [h.words f hf hge hmem j hj]

/-- No frames yet. -/
theorem Separate.start {mem : PhysMem} {b : Bitmap} (h : KernelSpace L (mem, b) t)
    (hsubset : freeSet b ⊆ free) : Separate L free t (entryAt mem) ⟨mem, b, []⟩ where
  space := h
  subset := hsubset
  nodup := List.nodup_nil
  aligned _ hf := absurd hf List.not_mem_nil
  page _ hf := absurd hf List.not_mem_nil
  not_free _ hf := absurd hf List.not_mem_nil
  unused _ hf := absurd hf List.not_mem_nil
  words _ _ _ _ _ _ := rfl

/-- **One operation.** -/
theorem Separate.step (h : Separate L free t d s) {op : FrameOp} (hvalid : op.Valid L s) :
    ∃ s', frameStep L s op = some s' ∧
      Separate L free (levels t (mapCalls [op])) (contents d [op]) s' := by
  cases op with
  | take => exact h.take
  | map c => exact h.map hvalid
  | store frame i v => exact h.store hvalid

end Steps

/-! ## Runs -/

theorem mapCalls_cons (op : FrameOp) (ops : List FrameOp) :
    mapCalls (op :: ops) = mapCalls [op] ++ mapCalls ops := by
  cases op
  all_goals rfl

theorem levels_append (t : Levels Nat Nat Bool UInt32) (calls calls' : List MapCall) :
    levels t (calls ++ calls') = levels (levels t calls) calls' := List.foldl_append

/-- **A run** of operations. -/
theorem Separate.run {L : Boot.BootLayout} {free : Set Nat} {ops : List FrameOp} :
    ∀ {s : FrameState} {t : Levels Nat Nat Bool UInt32} {d : UInt32 → Nat → UInt32},
      Separate L free t d s → Guarded (frameStep L) (fun s op => op.Valid L s) s ops →
      ∃ s', ops.foldlM (frameStep L) s = some s' ∧
        Separate L free (levels t (mapCalls ops)) (contents d ops) s' := by
  induction ops with
  | nil => exact fun h _ => ⟨_, rfl, h⟩
  | cons op ops ih =>
    intro s t d h hguarded
    obtain ⟨s', hs', h'⟩ := h.step hguarded.1
    obtain ⟨s'', hs'', h''⟩ := ih h' (hguarded.2 s' hs')
    refine ⟨s'', ?_, ?_⟩
    · rw [List.foldlM_cons, hs']
      exact hs''
    · rw [mapCalls_cons, levels_append]
      exact h''

/-! ## From boot on -/

section Boot

open Boot

variable {L : BootLayout} {m : MemoryMap} {b : Bitmap} (mem : PhysMem)

/-- The window of `setup_paging`. -/
theorem kernelWindow_setupMemory (hframes : UsableFrames L m b) :
    KernelWindow (setupMemory L m b mem) L.directory := by
  intro virt hlo hhi
  rw [UInt32.le_iff_toNat_le] at hlo
  rw [UInt32.lt_iff_toNat_lt] at hhi
  simp only [UInt32.reduceToNat] at hlo hhi
  have ht : kernelTable (kernelPt L m b).1 (virt.toNat / 0x400000 - 768) ∈ tables L m b :=
    mem_pageTables.mpr (.inl ⟨_, by omega, rfl⟩)
  obtain ⟨hne, hlt, -⟩ := hframes _ (frame_mem ht)
  have hslot : pdIndex virt = virt.toNat / 0x400000 - 768 + 768 := by
    rw [pdIndex_eq]
    omega
  obtain ⟨tr, hwalk, hphys, -, -⟩ := walk_table mem ht hne (Nat.ne_of_lt hlt) hslot
  rw [translateVirt, hwalk]
  refine congrArg some (UInt32.toNat_inj.mp ?_)
  rw [hphys, toNat_virtToPhys hlo, ptIndex_eq]
  show 4096 * (1024 * (virt.toNat / 0x400000 - 768) + _) + _ = _
  omega

/-- A slot that is in use has a table of `setup_paging`. -/
theorem table_of_present {i : Nat} (hi : i ∈ tableSlots)
    (hp : present (entryAt (setupMemory L m b (bootMemory L mem)) L.directory i) = true) :
    ∃ tab ∈ tables L m b, tab.slot = i ∧
      entryFrame (entryAt (setupMemory L m b (bootMemory L mem)) L.directory i) = tab.frame := by
  by_cases hslot : ∃ tab ∈ tables L m b, tab.slot = i
  · obtain ⟨tab, htab, rfl⟩ := hslot
    refine ⟨tab, htab, rfl, ?_⟩
    rw [entryAt, read_slot _ htab]
    exact entryFrame_or (pageAligned_table htab) (table_bounds htab).2.2
  · -- the boot code has entered slots that are entered again, and cleared slot 0
    have hnone : ∀ tab ∈ tables L m b, tab.slot ≠ i := fun tab htab heq => hslot ⟨tab, htab, heq⟩
    have hlt : i < 1024 := Nat.lt_succ_of_lt hi
    have hread := read_other_slot (bootMemory L mem) hlt hnone (Nat.ne_of_lt hi)
    have huser := hnone (userTable (userPt L m b).1 (i - 1))
    have hkernel := hnone (kernelTable (kernelPt L m b).1 (i - 768))
    rw [entryAt, hread, bootMemory_directory L mem hlt] at hp
    have hzero : ¬ present 0 = true := by decide
    split_ifs at hp with h768 h1
    · exact absurd (show i - 768 + 768 = i by omega)
        (hkernel (mem_pageTables.mpr (.inl ⟨_, by omega, rfl⟩)))
    · rcases h1 with rfl | rfl
      · exact absurd rfl (huser (mem_pageTables.mpr (.inr ⟨_, by decide, rfl⟩)))
      · exact absurd rfl (hkernel (mem_pageTables.mpr (.inl ⟨_, by decide, rfl⟩)))
    · exact absurd hp hzero

/-- The bitmap that `setup_paging` leaves. -/
def bitmapLeft (L : BootLayout) (m : MemoryMap) (b : Bitmap) : Bitmap := (userPt L m b).2

/-- Its frames, and what they leave. -/
theorem setupPaging_allocs (L : BootLayout) (m : MemoryMap) (b : Bitmap) :
    FirstFit.Allocs (startIndex L.kernelEnd.addr) (freeSet (setupBitmap L.kernelEnd.addr m b))
      ((pageTableFrames L m b).map framePage) (freeSet (bitmapLeft L m b)) := by
  have hleft : bitmapLeft L m b = (allocFrames L.kernelEnd.addr (kernelPageTables + userPageTables)
      (setupBitmap L.kernelEnd.addr m b)).2 := by
    rw [allocFrames_add L.kernelEnd.addr userPageTables kernelPageTables, bitmapLeft, userPt, kernelPt]
  rw [hleft]
  exact allocFrames_allocs (virtToPhys_ge L.kernelEnd) _ _

/-- What they leave is listed as available. -/
theorem frees_of_free {p : Nat} (hp : p ∈ freeSet (bitmapLeft L m b)) : m.Frees p :=
  ((mem_freeSet_setupBitmap L.kernelEnd m b p).mp
    ((setupPaging_allocs L m b).mem_of_mem_after hp)).2

/-- The tables of `setup_paging` are apart. -/
theorem apart_setupMemory (hframes : UsableFrames L m b) :
    Apart tableSlots (setupMemory L m b (bootMemory L mem)) L.directory where
  aligned := L.pageAligned_directory
  lt i hi := Nat.lt_succ_of_lt hi
  ne_directory i hi hp := by
    obtain ⟨tab, htab, -, hframe⟩ := table_of_present mem hi hp
    obtain ⟨hne, hlt, -⟩ := hframes _ (frame_mem htab)
    have hhome := home_ne_directory (frame_mem htab)
    rw [home_of_ne (Nat.ne_of_lt hlt)] at hhome
    rw [hframe]
    exact hhome
  distinct i hi j hj hp hp' heq := by
    obtain ⟨tab, htab, rfl, hframe⟩ := table_of_present mem hi hp
    obtain ⟨tab', htab', rfl, hframe'⟩ := table_of_present mem hj hp'
    rw [hframe, hframe'] at heq
    rw [frame_inj htab htab' heq (hframes _ (frame_mem htab)).1]

/-- **Behind `setup_paging`** the tables are apart, reserved and low. -/
theorem kernelSpace_setupMemory (hframes : UsableFrames L m b) :
    KernelSpace L (setupMemory L m b (bootMemory L mem), bitmapLeft L m b)
      (levelsOf (setupMemory L m b (bootMemory L mem)) L.directory) := by
  have hwindow := kernelWindow_setupMemory (bootMemory L mem) hframes
  refine KernelSpace.of_apart (apart_setupMemory mem hframes) hwindow fun i hi hp => ?_
  obtain ⟨tab, htab, -, hframe⟩ := table_of_present mem hi hp
  obtain ⟨hne, hlt, -⟩ := hframes _ (frame_mem htab)
  have hserved := List.mem_map.mpr ⟨_, frame_mem htab, framePage_eq_some hne⟩
  rw [hframe, UInt32.lt_iff_toNat_lt]
  simp only [UInt32.reduceToNat]
  exact ⟨by omega, (setupPaging_allocs L m b).not_mem_of_served hserved⟩

/-- It does not fault. -/
theorem setupPaging_left (hframes : UsableFrames L m b) :
    setupPaging (bootTranslate L mem) L m b (bootMemory L mem)
      = some (setupMemory L m b (bootMemory L mem), bitmapLeft L m b) :=
  setupPaging_eq_some mem _ fun f hf => Nat.lt_trans (hframes f hf).2.1 (by decide)

end Boot

/-- A frame is left, and a low one. -/
theorem allocFrame_ramMap {b : Bitmap} (hb : b = bitmapLeft Boot.smallLayout ramMap zeroBitmap) :
    (allocFrame smallKernel.addr b).1 ≠ 0 ∧ (allocFrame smallKernel.addr b).1 < 0x20000000 := by
  have hstart : startIndex smallKernel.addr = 320 := by decide
  have hallocs := setupPaging_allocs Boot.smallLayout ramMap zeroBitmap
  have hfree : 0x500 ∈ freeSet b := by
    rw [hb]
    refine hallocs.mem_of_not_served ((mem_freeSet_setupBitmap smallKernel ramMap zeroBitmap _).mpr
      ⟨by decide, _, List.mem_singleton.mpr rfl, by decide⟩) fun hserved => ?_
    obtain ⟨f, hf, hpage⟩ := List.mem_map.mp hserved
    obtain ⟨hne, hlt, -⟩ := Boot.usableFrames_ramMap f hf
    have hp := Option.some.inj ((framePage_eq_some hne).symm.trans hpage)
    omega
  have hne := (allocFrame_ne_zero_iff smallKernel b).mpr ⟨_, hfree, by rw [hstart]; decide⟩
  obtain ⟨p, hp, -, haddr⟩ := mem_allocFrames (virtToPhys_ge smallKernel)
    (allocFrame_mem_allocFrames smallKernel.addr 0 b) hne
  obtain ⟨r, hr, -, -, hlt⟩ := frees_of_free (hb ▸ hp)
  obtain rfl := List.mem_singleton.mp hr
  have hlast : MemRegion.lastPage ⟨0x100000, 0x1000000⟩ = 0x1100 := by decide
  refine ⟨hne, ?_⟩
  rw [UInt32.lt_iff_toNat_lt, haddr]
  simp only [UInt32.reduceToNat]
  omega

/-- A frame is taken, a page of the users is mapped anew, and the frame is stored to. -/
def threeOps (frame : UInt32) : List FrameOp :=
  [.take, .map ⟨0x00400000, 0x800000, 0x7⟩, .store frame 5 0x2A]

theorem threeOps_valid {L : Boot.BootLayout} {mem : PhysMem} {b : Bitmap}
    (hp : present (entryAt mem L.directory 1) = true) (hne : (allocFrame L.kernelEnd.addr b).1 ≠ 0)
    (hlow : (allocFrame L.kernelEnd.addr b).1 < 0x20000000) :
    Guarded (frameStep L) (fun s op => op.Valid L s) ⟨mem, b, []⟩
      (threeOps (allocFrame L.kernelEnd.addr b).1) := by
  refine ⟨trivial, fun s hs => ?_⟩
  obtain rfl := Option.some.inj ((frameStep_take L ⟨mem, b, []⟩).symm.trans hs)
  have hpd : pdIndex 0x00400000 = 1 := by decide
  refine ⟨⟨.inl (by decide), by decide, by decide, fun hnone => ?_⟩, fun s' hs' => ⟨?_, fun _ _ => trivial⟩⟩
  · have htable : present (entryAt mem L.directory (pdIndex 0x00400000)) = false := hnone
    rw [hpd, hp] at htable
    exact absurd htable Bool.noConfusion
  · obtain ⟨⟨mem', b'⟩, -, rfl⟩ := Option.map_eq_some_iff.mp hs'
    refine ⟨?_, hlow, by decide⟩
    dsimp only
    rw [if_neg hne]
    exact List.mem_cons_self

end MyOs.Paging
