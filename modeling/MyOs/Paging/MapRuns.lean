/-
  Histories of `map_page`.

  The directory entry of a table gets its permissions from the call that makes the table, the entry
  of a page from the last call for the page.  So a run of calls IS a run over two levels.

  1. **Program** (`mapPages`): a call, on the memory and the bitmap.
  2. **Refinement** (`mapPages_refines`): the levels are the user bits of the directory and the entries
     of the pages.
  3. **Permissions** (`mapPages_user_iff`): who may use a page is what its last call says, exactly when
     the first call in its 4 MiB lets users in, or nobody asks for it.
-/
import MyOs.Lib.GuardedRuns
import MyOs.Lib.Levels
import MyOs.Paging.MapPage

namespace MyOs.Paging

open MyOs.Lib MyOs.Lib.Mmu MyOs.Lib.GuardedRuns

/-! ## The program -/

/-- The arguments of `map_page`. -/
structure MapCall where
  virt : UInt32
  phys : UInt32
  flags : UInt32

/-- `map_page`. -/
def mapPages (tr : UInt32 → Option UInt32) (kernelEnd pageDirectory : UInt32)
    (s : PhysMem × Bitmap) (c : MapCall) : Option (PhysMem × Bitmap) :=
  mapPage tr kernelEnd pageDirectory c.virt c.phys c.flags s.2 s.1

/-- The allocation of a call does not fail: a table that it needs gets a frame, which is reached. -/
def Allocates (tr : UInt32 → Option UInt32) (kernelEnd cr3 : UInt32) (s : PhysMem × Bitmap)
    (c : MapCall) : Prop :=
  present (entryAt s.1 cr3 (pdIndex c.virt)) = false →
    (allocFrame kernelEnd s.2).1 ≠ 0 ∧ Reached tr (allocFrame kernelEnd s.2).1

/-! ## Refinement -/

/-- The number of a page. -/
def page (virt : UInt32) : Nat := virt.toNat / 4096

/-- The levels of some calls: of the directory, the user bits; of the tables, the entries. -/
def levels (t : Levels Nat Nat Bool UInt32) (calls : List MapCall) : Levels Nat Nat Bool UInt32 :=
  Levels.run (fun c : MapCall => pdIndex c.virt) (fun c => page c.virt) (fun c => user c.flags)
    (fun c => c.phys ||| c.flags) t calls

/-- The memory and the bitmap stand for some levels. -/
structure Stands (tr : UInt32 → Option UInt32) (cr3 : UInt32) (s : PhysMem × Bitmap)
    (t : Levels Nat Nat Bool UInt32) : Prop where
  directory : PageDirectory tr s.1 cr3
  reserved : ∀ i ∈ tableSlots, present (entryAt s.1 cr3 i) = true →
    (entryFrame (entryAt s.1 cr3 i)).toNat / 4096 ∉ freeSet s.2
  upper : ∀ i ∈ tableSlots, t.upper i
    = if present (entryAt s.1 cr3 i) then some (user (entryAt s.1 cr3 i)) else none
  lower : ∀ virt, pdIndex virt ∈ tableSlots →
    (walk s.1 cr3 virt).map Translation.pte = t.lower (page virt)

/-- An entry is in use if its flags say so. -/
theorem present_or_flags (phys : UInt32) {flags : UInt32} (h : present flags = true) :
    present (phys ||| flags) = true := by
  rw [present_eq] at h ⊢
  rw [UInt32.toNat_or, Nat.testBit_or, h, Bool.or_true]

theorem user_or_flags (phys flags : UInt32) : user (phys ||| flags) = (user phys || user flags) := by
  rw [user_eq, user_eq, user_eq, UInt32.toNat_or, Nat.testBit_or]

section Runs

variable {tr : UInt32 → Option UInt32} {kernelEnd cr3 : UInt32}
  (hk : 0x8000 ≤ (virtToPhys kernelEnd).toNat) (hcr3 : cr3.toNat < 4096 * startIndex kernelEnd)

/-- A directory without tables. -/
theorem stands_empty (haligned : PageAligned cr3) (hreached : Reached tr cr3) {s : PhysMem × Bitmap}
    (hempty : ∀ i ∈ tableSlots, present (entryAt s.1 cr3 i) = false) :
    Stands tr cr3 s Levels.empty where
  directory :=
    { apart :=
        { aligned := haligned
          lt := fun _ hi => Nat.lt_succ_of_lt hi
          ne_directory := fun i hi hp => absurd hp (Bool.eq_false_iff.mp (hempty i hi))
          distinct := fun i hi _ _ hp => absurd hp (Bool.eq_false_iff.mp (hempty i hi)) }
      reached := hreached
      tables_reached := fun i hi hp => absurd hp (Bool.eq_false_iff.mp (hempty i hi)) }
  reserved i hi hp := absurd hp (Bool.eq_false_iff.mp (hempty i hi))
  upper i hi := by
    rw [hempty i hi]
    rfl
  lower virt hvirt := by
    rw [walk_of_not_present_pde (hempty _ hvirt)]
    rfl

include hk hcr3

/-- The frame of a call that allocates is fresh, and reserved behind it. -/
theorem Stands.fresh {s : PhysMem × Bitmap} {t : Levels Nat Nat Bool UInt32}
    (h : Stands tr cr3 s t) (hne : (allocFrame kernelEnd s.2).1 ≠ 0)
    (hreached : Reached tr (allocFrame kernelEnd s.2).1) :
    FreshFrame tr s.1 cr3 (allocFrame kernelEnd s.2).1 ∧
      (allocFrame kernelEnd s.2).1.toNat / 4096 ∉ freeSet (allocFrame kernelEnd s.2).2 ∧
      freeSet (allocFrame kernelEnd s.2).2 ⊆ freeSet s.2 := by
  rcases allocFrame_servesFirst hk s.2 with ⟨p, hleast, -, haddr, hfree⟩ | ⟨-, heq⟩
  · have hp : (allocFrame kernelEnd s.2).1.toNat / 4096 = p := by
      rw [haddr, Nat.mul_div_cancel_left p (by decide)]
    have hge : startIndex kernelEnd ≤ p := hleast.1.2
    refine ⟨⟨hreached, fun heq => ?_, fun i hi hpresent heq => ?_⟩, ?_, ?_⟩
    · rw [heq] at haddr
      omega
    · refine h.reserved i hi hpresent ?_
      rw [heq, hp]
      exact hleast.1.1
    · rw [hp, hfree]
      exact fun hmem => hmem.2 rfl
    · rw [hfree]
      exact Set.sdiff_subset
  · rw [heq] at hne
    exact absurd rfl hne

/-- The frames of the tables stay reserved, that of a new one included. -/
theorem Stands.ensured_reserved {s s' : PhysMem × Bitmap} {t : Levels Nat Nat Bool UInt32}
    {flags : UInt32} {slot : Nat} (h : Stands tr cr3 s t)
    (htable : TableEnsured kernelEnd flags cr3 slot s.2 s.1 s')
    (halloc : present (entryAt s.1 cr3 slot) = false →
      (allocFrame kernelEnd s.2).1 ≠ 0 ∧ Reached tr (allocFrame kernelEnd s.2).1) :
    ∀ i ∈ tableSlots, present (entryAt s'.1 cr3 i) = true →
      (entryFrame (entryAt s'.1 cr3 i)).toNat / 4096 ∉ freeSet s'.2 := by
  cases htable with
  | old _ hentry =>
    intro i hi hp
    rw [hentry i (Nat.lt_succ_of_lt hi)] at hp ⊢
    exact h.reserved i hi hp
  | new hfree hentry =>
    obtain ⟨hne, hreached⟩ := halloc hfree
    obtain ⟨-, hgone, hsubset⟩ := h.fresh hk hcr3 hne hreached
    obtain ⟨hframe, -, -⟩ := tableEntry_eq (pageAligned_allocFrame kernelEnd s.2) flags
    intro i hi hp
    rw [hentry i (Nat.lt_succ_of_lt hi)] at hp ⊢
    split_ifs at hp ⊢
    · rw [hframe]
      exact hgone
    · exact fun hmem => h.reserved i hi hp (hsubset hmem)

omit hk hcr3 in
/-- The user bit enters the upper level, if there is no table yet. -/
theorem Stands.ensured_upper {s s' : PhysMem × Bitmap} {t : Levels Nat Nat Bool UInt32}
    {flags : UInt32} {slot : Nat} (h : Stands tr cr3 s t) (hslot : slot ∈ tableSlots)
    (htable : TableEnsured kernelEnd flags cr3 slot s.2 s.1 s') : ∀ i ∈ tableSlots,
    (if i = slot then (t.upper slot).or (some (user flags)) else t.upper i)
      = if present (entryAt s'.1 cr3 i) then some (user (entryAt s'.1 cr3 i)) else none := by
  intro i hi
  rw [h.upper _ hslot]
  cases htable with
  | old hold hentry =>
    rw [hentry i (Nat.lt_succ_of_lt hi), if_pos hold]
    by_cases hhere : i = slot
    · rw [if_pos hhere, hhere, if_pos hold]
      rfl
    · rw [if_neg hhere]
      exact h.upper i hi
  | new hfree hentry =>
    obtain ⟨-, hnew, huser⟩ := tableEntry_eq (pageAligned_allocFrame kernelEnd s.2) flags
    rw [hentry i (Nat.lt_succ_of_lt hi), hfree]
    by_cases hhere : i = slot
    · rw [if_pos hhere, if_pos hhere, hnew, if_pos rfl, huser]
      rfl
    · rw [if_neg hhere, if_neg hhere]
      exact h.upper i hi

/-- **Refinement**, one call: it enters the user bit of its flags in the upper level, if there is no
    table yet, and its entry in the lower one. -/
theorem mapPages_refines {s : PhysMem × Bitmap} {t : Levels Nat Nat Bool UInt32} {c : MapCall}
    (h : Stands tr cr3 s t) (hvirt : c.virt < 0xFFC00000) (hpresent : present c.flags = true)
    (halloc : Allocates tr kernelEnd cr3 s c) :
    ∃ s', mapPages tr kernelEnd (cr3 + kernelOffset) s c = some s' ∧
      Stands tr cr3 s' (levels t [c]) := by
  have hslot := pdIndex_mem_tableSlots hvirt
  obtain ⟨mem', bitmap', hmap, hdir, htable, hwalk⟩ :=
    mapPage_eq h.directory hvirt (present_or_flags c.phys hpresent)
      fun hp => (h.fresh hk hcr3 (halloc hp).1 (halloc hp).2).1
  refine ⟨(mem', bitmap'), hmap, hdir, h.ensured_reserved hk hcr3 htable halloc, ?_,
    fun virt hin => ?_⟩
  · intro i hi
    exact (Levels.enter_upper ..).trans (h.ensured_upper hslot htable i hi)
  · refine Eq.trans ?_ (Levels.enter_lower ..).symm
    rw [hwalk virt hin]
    by_cases hsame : SamePage virt c.virt
    · rw [if_pos hsame, if_pos (show page virt = page c.virt from hsame)]
      rfl
    · rw [if_neg hsame, if_neg (show page virt ≠ page c.virt from hsame)]
      exact h.lower virt hin

omit hk hcr3 in
/-- A call that finds a table does not allocate. -/
theorem Stands.allocates {s : PhysMem × Bitmap} {t : Levels Nat Nat Bool UInt32} {c : MapCall}
    (h : Stands tr cr3 s t) (hvirt : c.virt < 0xFFC00000) {b : Bool}
    (hupper : t.upper (pdIndex c.virt) = some b) : Allocates tr kernelEnd cr3 s c := by
  intro hp
  rw [h.upper _ (pdIndex_mem_tableSlots hvirt), hp] at hupper
  nomatch hupper

/-- **Refinement**, many calls. -/
theorem mapPages_run {calls : List MapCall}
    (hcalls : ∀ c ∈ calls, c.virt < 0xFFC00000 ∧ present c.flags = true) :
    ∀ {s : PhysMem × Bitmap} {t : Levels Nat Nat Bool UInt32}, Stands tr cr3 s t →
      Guarded (mapPages tr kernelEnd (cr3 + kernelOffset)) (Allocates tr kernelEnd cr3) s calls →
      ∃ s', calls.foldlM (mapPages tr kernelEnd (cr3 + kernelOffset)) s = some s' ∧
        Stands tr cr3 s' (levels t calls) := by
  induction calls with
  | nil => exact fun h _ => ⟨_, rfl, h⟩
  | cons c calls ih =>
    intro s t h hguarded
    obtain ⟨hvirt, hpresent⟩ := hcalls c List.mem_cons_self
    obtain ⟨s', hs', h'⟩ := mapPages_refines hk hcr3 h hvirt hpresent hguarded.1
    obtain ⟨s'', hs'', h''⟩ :=
      ih (fun c hc => hcalls c (List.mem_cons_of_mem _ hc)) h' (hguarded.2 s' hs')
    refine ⟨s'', ?_, h''⟩
    rw [List.foldlM_cons, hs']
    exact hs''

end Runs

/-! ## Permissions -/

/-- The last call for the page of an address. -/
def lastCall (calls : List MapCall) (virt : UInt32) : Option MapCall :=
  Levels.last (fun c => page c.virt) calls (page virt)

/-- The first call in the 4 MiB of an address. -/
def firstCall (calls : List MapCall) (virt : UInt32) : Option MapCall :=
  Levels.first (fun c => pdIndex c.virt) calls (pdIndex virt)

/-- A page that was mapped has the permissions of two calls. -/
theorem Stands.walk {tr : UInt32 → Option UInt32} {cr3 : UInt32} {s : PhysMem × Bitmap}
    {calls : List MapCall} (h : Stands tr cr3 s (levels Levels.empty calls)) {virt : UInt32}
    (hslot : pdIndex virt ∈ tableSlots) {c : MapCall} (hlast : lastCall calls virt = some c) :
    ∃ f t, firstCall calls virt = some f ∧ Mmu.walk s.1 cr3 virt = some t ∧
      t.isUser = (user f.flags && (user c.phys || user c.flags)) := by
  have hlower := h.lower virt hslot
  rw [levels, Levels.run_lower, show Levels.last _ calls (page virt) = some c from hlast] at hlower
  obtain ⟨t, hwalk, hpte⟩ := Option.map_eq_some_iff.mp hlower
  obtain ⟨hpde, hp, -⟩ := of_walk_eq_some hwalk
  have hentry : entryAt s.1 cr3 (pdIndex virt) = t.pde := hpde
  have hupper := h.upper _ hslot
  rw [levels, Levels.run_upper, hentry, if_pos hp] at hupper
  obtain ⟨f, hfirst, huser⟩ := Option.map_eq_some_iff.mp hupper
  refine ⟨f, t, hfirst, hwalk, ?_⟩
  rw [Translation.isUser, ← huser, hpte, user_or_flags]

theorem virt_lt_of_lastCall {calls : List MapCall} (hcalls : ∀ c ∈ calls, c.virt < 0xFFC00000)
    {virt : UInt32} {c : MapCall} (hlast : lastCall calls virt = some c) : virt < 0xFFC00000 := by
  obtain ⟨hmem, hpage⟩ := Levels.of_last_eq_some hlast
  have hc := hcalls c hmem
  unfold page at hpage
  rw [UInt32.lt_iff_toNat_lt] at hc ⊢
  simp only [UInt32.reduceToNat] at hc ⊢
  omega

/-- **Who may use a page**: in every run from an empty directory in which the allocation does not
    fail, every page that was mapped has the user bit of its last call, exactly when that is set in
    the first call of the 4 MiB too, or is not asked for and not got otherwise. -/
theorem mapPages_user_iff (L : Boot.BootLayout) {tr : UInt32 → Option UInt32}
    (hreached : Reached tr L.directory) {mem : PhysMem} {bitmap : Bitmap}
    (hempty : ∀ i < 1023, present (entryAt mem L.directory i) = false) {calls : List MapCall}
    (hcalls : ∀ c ∈ calls, c.virt < 0xFFC00000 ∧ present c.flags = true)
    (halloc : Guarded (mapPages tr L.kernelEnd.addr L.bootPageDirectory)
      (Allocates tr L.kernelEnd.addr L.directory) (mem, bitmap) calls) :
    ∃ s', calls.foldlM (mapPages tr L.kernelEnd.addr L.bootPageDirectory) (mem, bitmap) = some s' ∧
      ∀ virt c, lastCall calls virt = some c → ∃ f t, firstCall calls virt = some f ∧
        walk s'.1 L.directory virt = some t ∧
        (t.isUser = user c.flags ↔ (user c.flags = true → user f.flags = true) ∧
          (user c.flags = false → user f.flags = true → user c.phys = false)) := by
  obtain ⟨hlow, -, hend⟩ := startIndex_bounds L.kernelEnd
  obtain ⟨-, -, hbehind⟩ := L.directory_bounds
  have hbitmap : bitmapSize = 131072 := rfl
  rw [bootPageDirectory_eq] at halloc ⊢
  obtain ⟨s', hrun, hstands⟩ := mapPages_run (virtToPhys_ge L.kernelEnd) (by omega) hcalls
    (stands_empty L.pageAligned_directory hreached fun i hi => hempty i hi) halloc
  refine ⟨s', hrun, fun virt c hlast => ?_⟩
  have hvirt := virt_lt_of_lastCall (fun c hc => (hcalls c hc).1) hlast
  obtain ⟨f, t, hfirst, hwalk, huser⟩ := hstands.walk (pdIndex_mem_tableSlots hvirt) hlast
  refine ⟨f, t, hfirst, hwalk, ?_⟩
  rw [huser]
  cases user c.flags <;> cases user f.flags <;> cases user c.phys <;> decide

/-- Two pages of one 4 MiB, the second for users. -/
def twoCalls (flags : UInt32) : List MapCall :=
  [⟨0xA0000000, 0x500000, flags⟩, ⟨0xA0001000, 0x501000, 0x7⟩]

theorem twoCalls_valid {flags : UInt32} (hpresent : present flags = true) :
    ∀ c ∈ twoCalls flags, c.virt < 0xFFC00000 ∧ present c.flags = true := by
  intro c hc
  rcases List.mem_pair.mp hc with rfl | rfl
  · exact ⟨show (0xA0000000 : UInt32) < 0xFFC00000 by decide, hpresent⟩
  · decide

theorem not_present_zero (table : UInt32) (i : Nat) : present (entryAt (fun _ => 0) table i) = false :=
  show present 0 = false by decide

theorem stands_smallLayout : Stands window Boot.smallLayout.directory (fun _ => 0, zeroBitmap)
    Levels.empty :=
  stands_empty (by decide) (reached_window (by decide) (by decide))
    fun i _ => not_present_zero _ i

/-- One table is made for them. -/
theorem twoCalls_allocate {flags : UInt32} (hpresent : present flags = true) :
    Guarded (mapPages window smallKernel.addr (Boot.smallLayout.directory + kernelOffset))
      (Allocates window smallKernel.addr Boot.smallLayout.directory) (fun _ => 0, zeroBitmap)
      (twoCalls flags) := by
  have hfirst : Allocates window smallKernel.addr Boot.smallLayout.directory
      (fun _ => 0, zeroBitmap) ⟨0xA0000000, 0x500000, flags⟩ := by
    intro _
    dsimp only
    rw [allocFrame_zeroBitmap]
    exact ⟨by decide, reached_window (by decide) (by decide)⟩
  refine ⟨hfirst, fun s' hs' => ⟨?_, fun _ _ => trivial⟩⟩
  obtain ⟨s'', hs'', hstands⟩ := mapPages_refines (by decide) (by decide) stands_smallLayout
    (show (0xA0000000 : UInt32) < 0xFFC00000 by decide) hpresent hfirst
  obtain rfl := Option.some.inj (hs'.symm.trans hs'')
  have hblock : pdIndex 0xA0000000 = pdIndex 0xA0001000 := by decide
  have hfirstCall := Levels.first_cons_of_eq (fun c : MapCall => pdIndex c.virt)
    (a := ⟨0xA0000000, 0x500000, flags⟩) hblock []
  refine hstands.allocates (by decide) (b := user flags) ?_
  rw [levels, Levels.run_upper, hfirstCall]
  rfl

/-- With both for users, users may use the second. -/
theorem mapPages_user_iff_users :
    ∃ s', (twoCalls 0x7).foldlM (mapPages window smallKernel.addr
        Boot.smallLayout.bootPageDirectory) (fun _ => 0, zeroBitmap) = some s' ∧
      ∃ t, walk s'.1 Boot.smallLayout.directory 0xA0001234 = some t ∧ t.isUser = true := by
  obtain ⟨s', hrun, hpages⟩ := mapPages_user_iff Boot.smallLayout
    (reached_window (by decide) (by decide)) (fun i _ => not_present_zero _ i)
    (@twoCalls_valid 0x7 (by decide)) (twoCalls_allocate (by decide))
  obtain ⟨f, t, hfirst, hwalk, huser⟩ := hpages 0xA0001234 ⟨0xA0001000, 0x501000, 0x7⟩ rfl
  obtain rfl := Option.some.inj hfirst
  exact ⟨s', hrun, t, hwalk, huser.mpr (by decide)⟩

/-- **A page for users behind a page of the kernel**: users may not use it. -/
theorem not_mapPages_user : ¬ ∀ (L : Boot.BootLayout) (tr : UInt32 → Option UInt32)
    (mem : PhysMem) (bitmap : Bitmap) (calls : List MapCall), Reached tr L.directory →
    (∀ i < 1023, present (entryAt mem L.directory i) = false) →
    (∀ c ∈ calls, c.virt < 0xFFC00000 ∧ present c.flags = true) →
    Guarded (mapPages tr L.kernelEnd.addr L.bootPageDirectory)
      (Allocates tr L.kernelEnd.addr L.directory) (mem, bitmap) calls →
    ∃ s', calls.foldlM (mapPages tr L.kernelEnd.addr L.bootPageDirectory) (mem, bitmap) = some s' ∧
      ∀ virt c, lastCall calls virt = some c →
        ∃ t, walk s'.1 L.directory virt = some t ∧ t.isUser = user c.flags := by
  intro h
  have hallocate := @twoCalls_allocate 0x3 (by decide)
  obtain ⟨s', hrun, hpages⟩ := h Boot.smallLayout window (fun _ => 0) zeroBitmap (twoCalls 0x3)
    (reached_window (by decide) (by decide)) (fun i _ => not_present_zero _ i)
    (twoCalls_valid (by decide)) hallocate
  obtain ⟨s'', hrun', hstands⟩ := mapPages_run (by decide) (by decide)
    (@twoCalls_valid 0x3 (by decide)) stands_smallLayout hallocate
  obtain rfl := Option.some.inj (hrun.symm.trans hrun')
  obtain ⟨t, hwalk, huser⟩ := hpages 0xA0001000 _ rfl
  obtain ⟨f, t', hfirst, hwalk', huser'⟩ := hstands.walk
    (pdIndex_mem_tableSlots (show (0xA0001000 : UInt32) < 0xFFC00000 by decide)) rfl
  obtain rfl := Option.some.inj (hwalk.symm.trans hwalk')
  obtain rfl := Option.some.inj hfirst
  rw [huser] at huser'
  exact absurd huser' (by decide)

end MyOs.Paging
