/-
  Well-formed boot information.

  1. **The format** (`BootInfo.WellFormed`): tags at offsets that are multiples of 8, memory-map tags
     with a whole number of entries, and an end tag.
  2. **What `multiboot_shit` makes of it** (`multibootShit_regions`): the available entries in their
     order, and the end of the highest.
  3. **The array** (`multibootShit_stores_iff`): its 128 elements are enough exactly when no more
     entries are available.
-/
import MyOs.Boot.Multiboot
import MyOs.Lib.Bits

namespace MyOs.Boot

open MyOs.Paging

/-! ## The format -/

/-- `multiboot_mmap_entry`. -/
structure MmapEntry where
  addr : UInt64
  len : UInt64
  type : UInt32
deriving DecidableEq

/-- The entry as a region. -/
def MmapEntry.region (e : MmapEntry) : MemRegion := ⟨e.addr, e.len⟩

/-- The regions of the available entries. -/
def available (es : List MmapEntry) : List MemRegion :=
  (es.filter fun e => e.type = memoryAvailable).map MmapEntry.region

/-- The available regions of all memory-map tags. -/
def availableRegions (maps : List (List MmapEntry)) : List MemRegion := maps.flatMap available

theorem available_append (es es' : List MmapEntry) :
    available (es ++ es') = available es ++ available es' := by
  rw [available, List.filter_append, List.map_append]
  rfl

theorem available_singleton (e : MmapEntry) :
    available [e] = if e.type = memoryAvailable then [e.region] else [] := by
  rw [available, List.filter_cons]
  by_cases he : e.type = memoryAvailable
  · rw [if_pos (decide_eq_true he), if_pos he]
    rfl
  · rw [if_neg (fun h => he (of_decide_eq_true h)), if_neg he]
    rfl

namespace BootInfo

variable (I : BootInfo)

/-- The address of the byte at an offset. -/
def ptr (o : Nat) : UInt32 := I.start + UInt32.ofNat o

/-- The fields at an offset. -/
def field (o : Nat) : UInt32 := I.word (I.ptr o)
def field64 (o : Nat) : UInt64 :=
  (I.field o).toUInt64 ||| (I.field (o + 4)).toUInt64 <<< 32

/-- The entry at an offset. -/
def entry (o : Nat) : MmapEntry := ⟨I.field64 o, I.field64 (o + 8), I.field (o + 16)⟩

/-- A size, rounded up to a multiple of 8. -/
def rounded (size : UInt32) : Nat := (size.toNat + 7) / 8 * 8

/-- The tags from the offset `o` on, and the entries of each memory-map tag. -/
inductive TagsFrom : Nat → List (List MmapEntry) → Prop where
  | done {o : Nat} (hin : o + 8 ≤ I.size.toNat) (htype : I.field o = tagTypeEnd)
      (hsize : 8 ≤ (I.field (o + 4)).toNat) : TagsFrom o []
  | mmap {o n : Nat} {maps : List (List MmapEntry)} (htype : I.field o = tagTypeMmap)
      (hentry : 24 ≤ (I.field (o + 8)).toNat) (hmultiple : 8 ∣ (I.field (o + 8)).toNat)
      (hsize : (I.field (o + 4)).toNat = 16 + n * (I.field (o + 8)).toNat)
      (rest : TagsFrom (o + rounded (I.field (o + 4))) maps) :
      TagsFrom o (((List.range n).map fun k =>
        I.entry (o + 16 + k * (I.field (o + 8)).toNat)) :: maps)
  | other {o : Nat} {maps : List (List MmapEntry)} (hend : I.field o ≠ tagTypeEnd)
      (hmmap : I.field o ≠ tagTypeMmap) (hsize : 8 ≤ (I.field (o + 4)).toNat)
      (rest : TagsFrom (o + rounded (I.field (o + 4))) maps) : TagsFrom o maps

/-- Boot information somewhere in memory, with the entries of its memory-map tags. -/
structure WellFormed (maps : List (List MmapEntry)) : Prop where
  inMemory : I.start.toNat + I.size.toNat ≤ 2 ^ 32
  tags : I.TagsFrom 8 maps

/-! ## Reading it -/

variable {I} {o : Nat} {maps : List (List MmapEntry)}

theorem TagsFrom.le (h : I.TagsFrom o maps) : o + 8 ≤ I.size.toNat := by
  induction h with
  | done hin => exact hin
  | mmap _ _ _ _ _ ih => omega
  | other _ _ _ _ ih => omega

theorem ptr_add (I : BootInfo) (o : Nat) (k : UInt32) : I.ptr o + k = I.ptr (o + k.toNat) := by
  rw [ptr, ptr, UInt32.ofNat_add, UInt32.ofNat_toNat, UInt32.add_assoc]

theorem inside_ptr (h : o < I.size.toNat) : I.Inside (I.ptr o) := by
  have hlt : I.size.toNat < 2 ^ 32 := I.size.toNat_lt
  have hoffset : I.ptr o - I.start = UInt32.ofNat o := by
    rw [ptr, UInt32.add_comm, UInt32.add_sub_cancel]
  rw [Inside, hoffset, UInt32.lt_iff_toNat_lt,
    UInt32.toNat_ofNat_of_lt' (Nat.lt_trans h hlt)]
  exact h

theorem read32_ptr (h : o + 4 ≤ I.size.toNat) : I.read32 (I.ptr o) = some (I.field o) := by
  unfold read32
  rw [ptr_add, ptr_add, ptr_add]
  exact if_pos ⟨inside_ptr (by omega), inside_ptr (show o + 1 < _ by omega),
    inside_ptr (show o + 2 < _ by omega), inside_ptr (show o + 3 < _ by omega)⟩

theorem read64_ptr (h : o + 8 ≤ I.size.toNat) : I.read64 (I.ptr o) = some (I.field64 o) := by
  have hhi : I.read32 (I.ptr o + 4) = some (I.field (o + 4)) := by
    rw [ptr_add]
    exact read32_ptr (show o + 4 + 4 ≤ _ by omega)
  rw [read64, read32_ptr (by omega), hhi]
  rfl

/-- Addresses in the area are in the order of their offsets. -/
theorem ptr_lt_iff {a b : Nat} (ha : I.start.toNat + a < 2 ^ 32) (hb : I.start.toNat + b < 2 ^ 32) :
    I.ptr a < I.ptr b ↔ a < b := by
  have htoNat : ∀ c, I.start.toNat + c < 2 ^ 32 → (I.ptr c).toNat = I.start.toNat + c := by
    intro c hc
    rw [ptr, UInt32.toNat_add, UInt32.toNat_ofNat_of_lt' (by simp only [UInt32.size]; omega)]
    omega
  rw [UInt32.lt_iff_toNat_lt, htoNat a ha, htoNat b hb]
  omega

/-- The rounded size, as the code computes it. -/
theorem nextTag_ptr {size : UInt32} (h : size.toNat + 7 < 2 ^ 32) :
    nextTag (I.ptr o) size = I.ptr (o + rounded size) := by
  have hround : ((size + 7) &&& ~~~7).toNat = rounded size := by
    have hadd : (size + 7).toNat = size.toNat + 7 := by
      rw [UInt32.toNat_add]
      simp only [UInt32.reduceToNat]
      omega
    rw [Lib.Bits.toNat_and_high (i := 3) (by decide) rfl, hadd]
    rfl
  rw [nextTag, ptr_add, hround]

theorem entryRegions_ptr (h : o + 24 ≤ I.size.toNat) :
    entryRegions I (I.ptr o) = some (available [I.entry o]) := by
  have htype : I.read32 (I.ptr o + 16) = some (I.field (o + 16)) := by
    rw [ptr_add]
    exact read32_ptr (show o + 16 + 4 ≤ _ by omega)
  have hlen : I.read64 (I.ptr o + 8) = some (I.field64 (o + 8)) := by
    rw [ptr_add]
    exact read64_ptr (show o + 8 + 8 ≤ _ by omega)
  rw [entryRegions, htype, read64_ptr (by omega), hlen]
  show (if I.field (o + 16) = memoryAvailable then _ else _) = _
  rw [available_singleton]
  show _ = some (if I.field (o + 16) = memoryAvailable then _ else _)
  split
  · rfl
  · rfl

/-- The entries of a memory-map tag that has `n` of them, from the `k`-th on. -/
theorem entries_ptr {n : Nat} (hmemory : I.start.toNat + I.size.toNat ≤ 2 ^ 32)
    (hentry : 24 ≤ (I.field (o + 8)).toNat)
    (hsize : (I.field (o + 4)).toNat = 16 + n * (I.field (o + 8)).toNat)
    (hin : o + (I.field (o + 4)).toNat + 8 ≤ I.size.toNat) :
    ∀ j k, k + j = n → Entries I (I.ptr o) (I.field (o + 4))
      (I.ptr (o + 16 + k * (I.field (o + 8)).toNat))
      (available ((List.range' k j).map fun k =>
        I.entry (o + 16 + k * (I.field (o + 8)).toNat))) := by
  intro j
  have hend : I.ptr o + I.field (o + 4) = I.ptr (o + (I.field (o + 4)).toNat) := ptr_add I o _
  induction j with
  | zero =>
    intro k hk
    obtain rfl : k = n := hk
    refine .done ?_
    rw [hend, ptr_lt_iff (by omega) (by omega), hsize]
    omega
  | succ j ih =>
    intro k hk
    generalize he : (I.field (o + 8)).toNat = e at *
    have hle : (k + 1) * e ≤ n * e := Nat.mul_le_mul_right e (by omega)
    rw [Nat.add_mul, Nat.one_mul] at hle
    -- one entry further, the loop has one less to go
    have hnext : I.ptr (o + 16 + k * e) + I.field (o + 8) = I.ptr (o + 16 + (k + 1) * e) := by
      rw [ptr_add, he, Nat.add_mul, Nat.one_mul, Nat.add_assoc (o + 16)]
    have hsizeAt : I.read32 (I.ptr o + 8) = some (I.field (o + 8)) := by
      rw [ptr_add]
      exact read32_ptr (show o + 8 + 4 ≤ _ by omega)
    rw [List.range'_succ, List.map_cons, ← List.singleton_append, available_append]
    refine .entry ?_ (entryRegions_ptr (by omega)) hsizeAt ?_
    · rw [hend, ptr_lt_iff (by omega) (by omega)]
      omega
    · rw [hnext]
      exact ih (k + 1) (by omega)

/-- The tags of well-formed boot information lead to its end tag. -/
theorem TagsFrom.tags (hmemory : I.start.toNat + I.size.toNat ≤ 2 ^ 32)
    (h : I.TagsFrom o maps) : Tags I (I.ptr o) (maps.map available) := by
  have hlt : I.size.toNat < 2 ^ 32 := I.size.toNat_lt
  have hsizeAt : ∀ o, o + 8 ≤ I.size.toNat → I.read32 (I.ptr o + 4) = some (I.field (o + 4)) := by
    intro o ho
    rw [ptr_add]
    exact read32_ptr (show o + 4 + 4 ≤ _ by omega)
  induction h with
  | done hin htype _ => exact .done (htype ▸ read32_ptr (by omega))
  | @mmap o n maps htype hentry hmultiple hsize rest ih =>
    have hle := rest.le
    -- a tag ends at most 7 bytes in front of the next one
    have hround : (I.field (o + 4)).toNat ≤ rounded (I.field (o + 4)) := by
      unfold rounded
      omega
    have hround' : rounded (I.field (o + 4)) < (I.field (o + 4)).toNat + 8 := by
      unfold rounded
      omega
    refine .mmap (htype ▸ read32_ptr (by omega)) (hsizeAt o (by omega)) ?_ ?_
    · rw [List.range_eq_range']
      have hentries := entries_ptr hmemory hentry hsize (by omega) n 0 (Nat.zero_add n)
      rw [Nat.zero_mul] at hentries
      rw [ptr_add]
      exact hentries
    · rw [nextTag_ptr (by omega)]
      exact ih
  | @other o maps hend hmmap hsize rest ih =>
    have hle := rest.le
    have hround : (I.field (o + 4)).toNat ≤ rounded (I.field (o + 4)) := by
      unfold rounded
      omega
    refine .other (read32_ptr (by omega)) hend hmmap (hsizeAt o (by omega)) ?_
    rw [nextTag_ptr (by omega)]
    exact ih

end BootInfo

/-! ## The array and the highest end -/

/-- The end of the highest region. -/
def maxEnd (rs : List MemRegion) : Nat :=
  (rs.map fun r => r.base.toNat + r.length.toNat).foldr max 0

theorem maxEnd_append (rs rs' : List MemRegion) :
    maxEnd (rs ++ rs') = max (maxEnd rs) (maxEnd rs') := by
  induction rs with
  | nil => exact (Nat.zero_max _).symm
  | cons r rs ih =>
    show max _ (maxEnd (rs ++ rs')) = max (max _ (maxEnd rs)) _
    rw [ih, Nat.max_assoc]

namespace BootMap

variable {s : BootMap}

theorem regions_pushAll (s : BootMap) (rs : List MemRegion) :
    (s.pushAll rs).regions = s.regions ++ rs := by
  induction rs generalizing s with
  | nil => exact (List.append_nil _).symm
  | cons r rs ih => exact (ih (s.push r)).trans (List.append_assoc _ [r] rs)

theorem stores_pushAll (s : BootMap) (rs : List MemRegion) :
    (s.pushAll rs).stores = s.stores ++ List.range' s.regions.length rs.length := by
  induction rs generalizing s with
  | nil => exact (List.append_nil _).symm
  | cons r rs ih =>
    show ((s.push r).pushAll rs).stores = _
    rw [ih, List.length_cons, List.range'_succ]
    show (s.stores ++ [_]) ++ List.range' (s.regions ++ [r]).length rs.length = _
    rw [List.append_assoc, List.length_append]
    rfl

theorem maxAddr_pushAll (s : BootMap) (rs : List MemRegion) :
    (s.pushAll rs).maxAddr = s.maxAddr := by
  induction rs generalizing s with
  | nil => rfl
  | cons r rs ih => exact ih (s.push r)

theorem regions_afterMaps (s : BootMap) (maps : List (List MemRegion)) :
    (s.afterMaps maps).regions = s.regions ++ maps.flatten := by
  induction maps generalizing s with
  | nil => exact (List.append_nil _).symm
  | cons rs maps ih =>
    refine (ih (s.pushAll rs).measure).trans ?_
    show (s.pushAll rs).regions ++ _ = _
    rw [regions_pushAll, List.append_assoc, List.flatten_cons]

/-- One store for every region, each behind the one before. -/
theorem stores_afterMaps (maps : List (List MemRegion)) (hs : s.stores = List.range s.regions.length) :
    (s.afterMaps maps).stores = List.range (s.afterMaps maps).regions.length := by
  induction maps generalizing s with
  | nil => exact hs
  | cons rs maps ih =>
    refine ih (s := (s.pushAll rs).measure) ?_
    show (s.pushAll rs).stores = List.range (s.pushAll rs).regions.length
    rw [stores_pushAll, regions_pushAll, hs, List.length_append, List.range_eq_range',
      List.range_eq_range', ← List.range'_append_1, Nat.zero_add]

theorem toNat_largerEnd {maxAddr : UInt64} {r : MemRegion}
    (h : r.base.toNat + r.length.toNat < 2 ^ 64) :
    (largerEnd maxAddr r).toNat = max maxAddr.toNat (r.base.toNat + r.length.toNat) := by
  have hend : (r.base + r.length).toNat = r.base.toNat + r.length.toNat := by
    rw [UInt64.toNat_add, Nat.mod_eq_of_lt h]
  show (if r.base + r.length > maxAddr then r.base + r.length else maxAddr).toNat = _
  split_ifs with hlarger
  · rw [hend, Nat.max_eq_right]
    exact hend ▸ Nat.le_of_lt (UInt64.lt_iff_toNat_lt.mp hlarger)
  · rw [Nat.max_eq_left]
    exact hend ▸ Nat.le_of_not_lt (mt UInt64.lt_iff_toNat_lt.mpr hlarger)

theorem toNat_foldl_largerEnd {rs : List MemRegion}
    (h : ∀ r ∈ rs, r.base.toNat + r.length.toNat < 2 ^ 64) (maxAddr : UInt64) :
    (rs.foldl largerEnd maxAddr).toNat = max maxAddr.toNat (maxEnd rs) := by
  induction rs generalizing maxAddr with
  | nil => exact (Nat.max_zero _).symm
  | cons r rs ih =>
    rw [List.foldl_cons, ih (fun r hr => h r (List.mem_cons_of_mem _ hr)),
      toNat_largerEnd (h r List.mem_cons_self), Nat.max_assoc]
    rfl

theorem maxAddr_afterMaps {maps : List (List MemRegion)}
    (hends : ∀ r ∈ (s.afterMaps maps).regions, r.base.toNat + r.length.toNat < 2 ^ 64)
    (hs : s.maxAddr.toNat = maxEnd s.regions) :
    (s.afterMaps maps).maxAddr.toNat = maxEnd (s.afterMaps maps).regions := by
  induction maps generalizing s with
  | nil => exact hs
  | cons rs maps ih =>
    refine ih (s := (s.pushAll rs).measure) hends ?_
    have hregions : (s.pushAll rs).regions = s.regions ++ rs := regions_pushAll s rs
    have hlater : ∀ r ∈ (s.pushAll rs).regions, r.base.toNat + r.length.toNat < 2 ^ 64 := by
      intro r hr
      refine hends r ?_
      show r ∈ ((s.pushAll rs).measure.afterMaps maps).regions
      rw [regions_afterMaps]
      exact List.mem_append_left _ hr
    show ((s.pushAll rs).regions.foldl largerEnd _).toNat = maxEnd (s.pushAll rs).regions
    rw [toNat_foldl_largerEnd hlater, maxAddr_pushAll, hs, hregions, maxEnd_append,
      Nat.max_eq_right (Nat.le_max_left _ _)]

theorem totalPages_afterMaps (s : BootMap) {maps : List (List MemRegion)} (hmaps : maps ≠ []) :
    (s.afterMaps maps).totalPages = ((s.afterMaps maps).maxAddr / 4096).toUInt32 := by
  obtain ⟨maps, rs, rfl⟩ := (List.eq_nil_or_concat maps).resolve_left hmaps
  unfold afterMaps
  rw [List.concat_eq_append, List.foldl_append]
  rfl

/-- The indices at which the loop of `setup_bitmap` reads `free_regions`. -/
def setupReads (s : BootMap) : List Nat := List.range s.regions.length

/-- Only elements that the array has are stored, and read afterwards. -/
def Bounded (s : BootMap) : Prop :=
  (∀ i ∈ s.stores, i < maxMemRegions) ∧ ∀ i ∈ s.setupReads, i < maxMemRegions

/-- The state when `multiboot_shit` is called, whatever `total_pages` holds. -/
def initial (totalPages : UInt32) : BootMap := ⟨[], [], 0, totalPages⟩

end BootMap

theorem maxEnd_lt {rs : List MemRegion} {b : Nat} (hb : 0 < b)
    (h : ∀ r ∈ rs, r.base.toNat + r.length.toNat < b) : maxEnd rs < b := by
  induction rs with
  | nil => exact hb
  | cons r rs ih =>
    exact Nat.max_lt.mpr ⟨h r List.mem_cons_self, ih fun r hr => h r (List.mem_cons_of_mem _ hr)⟩

theorem forall_mem_range_lt {n b : Nat} : (∀ i ∈ List.range n, i < b) ↔ n ≤ b := by
  constructor
  · intro h
    by_contra hn
    exact Nat.lt_irrefl b (h b (List.mem_range.mpr (Nat.lt_of_not_le hn)))
  · exact fun h i hi => Nat.lt_of_lt_of_le (List.mem_range.mp hi) h

/-! ## What `multiboot_shit` makes of it -/

section WellFormed

variable {I : BootInfo} {maps : List (List MmapEntry)}

/-- The run on well-formed boot information. -/
theorem BootInfo.WellFormed.run (h : I.WellFormed maps) : ∃ n, ∀ fuel, n ≤ fuel → ∀ s,
    multibootShit I multiboot2BootloaderMagic fuel s = some (s.afterMaps (maps.map available)) := by
  obtain ⟨n, hn⟩ := (h.tags.tags h.inMemory).run
  refine ⟨n, fun fuel hfuel s => ?_⟩
  rw [multibootShit, if_neg (not_not.mpr rfl)]
  exact hn fuel fuel hfuel hfuel s

theorem regions_run (maps : List (List MmapEntry)) (totalPages : UInt32) :
    ((BootMap.initial totalPages).afterMaps (maps.map available)).regions
      = availableRegions maps := by
  rw [BootMap.regions_afterMaps, availableRegions, List.flatMap_def]
  rfl

theorem stores_run (maps : List (List MmapEntry)) (totalPages : UInt32) :
    ((BootMap.initial totalPages).afterMaps (maps.map available)).stores
      = List.range (availableRegions maps).length := by
  rw [BootMap.stores_afterMaps (s := .initial totalPages) _ rfl, regions_run]

theorem bounded_run_iff (maps : List (List MmapEntry)) (totalPages : UInt32) :
    ((BootMap.initial totalPages).afterMaps (maps.map available)).Bounded
      ↔ (availableRegions maps).length ≤ maxMemRegions := by
  rw [BootMap.Bounded, BootMap.setupReads, stores_run, regions_run, forall_mem_range_lt, and_self]

/-- Boot information at `0x10000`, from its 32-bit words. -/
def BootInfo.ofWords (w : Nat → UInt32) : BootInfo where
  memory p := (w ((p - 0xC0010000).toNat / 4) >>> (8 * (p % 4))).toUInt8
  mb2Addr := 0x10000

/-- A memory-map tag with an available and a reserved entry, behind a tag of another type. -/
def twoEntries : BootInfo := .ofWords fun i =>
  [96, 0, 4, 16, 640, 130048, 6, 64, 24, 0, 0, 0, 0x9FC00, 0, 1, 0, 0x9FC00, 0, 0x400, 0, 2, 0,
    0, 8].getD i 0

/-- Its entries. -/
def twoEntriesMaps : List (List MmapEntry) := [[⟨0, 0x9FC00, 1⟩, ⟨0x9FC00, 0x400, 2⟩]]

theorem twoEntries_wellFormed : twoEntries.WellFormed twoEntriesMaps := by
  refine ⟨by decide, .other (by decide) (by decide) (by decide) ?_⟩
  have hmaps : twoEntriesMaps = [(List.range 2).map fun k =>
      twoEntries.entry (8 + BootInfo.rounded 16 + 16 + k * 24)] := by decide
  rw [hmaps]
  exact .mmap (by decide) (by decide) (by decide) (by decide)
    (.done (by decide) (by decide) (by decide))

/-- **The memory map**: the regions are those of the available entries, in their order, and the
    highest address is where the last of them ends. -/
theorem multibootShit_regions (h : I.WellFormed maps)
    (hcount : (availableRegions maps).length ≤ maxMemRegions)
    (hends : ∀ r ∈ availableRegions maps, r.base.toNat + r.length.toNat < 2 ^ 44)
    (totalPages : UInt32) :
    ∃ n s, (∀ fuel, n ≤ fuel →
        multibootShit I multiboot2BootloaderMagic fuel (.initial totalPages) = some s) ∧
      s.regions = availableRegions maps ∧ s.Bounded ∧
      (maps ≠ [] → s.maxAddr.toNat = maxEnd (availableRegions maps) ∧
        s.totalPages.toNat = s.maxAddr.toNat / 4096) := by
  obtain ⟨n, hn⟩ := h.run
  have hregions := regions_run maps totalPages
  refine ⟨n, _, fun fuel hfuel => hn fuel hfuel _, hregions,
    (bounded_run_iff maps totalPages).mpr hcount, fun hmaps => ?_⟩
  have hfits : ∀ r ∈ ((BootMap.initial totalPages).afterMaps (maps.map available)).regions,
      r.base.toNat + r.length.toNat < 2 ^ 64 := by
    rw [hregions]
    exact fun r hr => Nat.lt_trans (hends r hr) (by decide)
  have hmax := BootMap.maxAddr_afterMaps hfits rfl
  rw [hregions] at hmax
  refine ⟨hmax, ?_⟩
  have hlt : maxEnd (availableRegions maps) < 2 ^ 44 := maxEnd_lt (by decide) hends
  rw [BootMap.totalPages_afterMaps _ (mt List.map_eq_nil_iff.mp hmaps), UInt64.toNat_toUInt32,
    UInt64.toNat_div]
  show _ / 4096 % 2 ^ 32 = _
  rw [Nat.mod_eq_of_lt (by omega)]

theorem multibootShit_regions_twoEntries :
    ∃ n s, (∀ fuel, n ≤ fuel →
        multibootShit twoEntries multiboot2BootloaderMagic fuel (.initial 0) = some s) ∧
      s.regions = availableRegions twoEntriesMaps ∧ s.Bounded ∧
      (twoEntriesMaps ≠ [] → s.maxAddr.toNat = maxEnd (availableRegions twoEntriesMaps) ∧
        s.totalPages.toNat = s.maxAddr.toNat / 4096) :=
  multibootShit_regions twoEntries_wellFormed (by decide) (by decide) 0

/-- **When the array is large enough**: exactly when no more entries are available than it has
    elements.  Nothing in the code looks at that. -/
theorem multibootShit_stores_iff (h : I.WellFormed maps) (totalPages : UInt32) :
    (∃ n s, (∀ fuel, n ≤ fuel →
        multibootShit I multiboot2BootloaderMagic fuel (.initial totalPages) = some s) ∧ s.Bounded)
      ↔ (availableRegions maps).length ≤ maxMemRegions := by
  obtain ⟨n, hn⟩ := h.run
  rw [← bounded_run_iff maps totalPages]
  constructor
  · rintro ⟨n', s, hs, hbounded⟩
    have heq := (hs (max n n') (Nat.le_max_right n n')).symm.trans
      (hn (max n n') (Nat.le_max_left n n') _)
    exact Option.some.inj heq ▸ hbounded
  · exact fun hbounded => ⟨n, _, fun fuel hfuel => hn fuel hfuel _, hbounded⟩

theorem multibootShit_stores_iff_twoEntries : ∃ n s, (∀ fuel, n ≤ fuel →
    multibootShit twoEntries multiboot2BootloaderMagic fuel (.initial 0) = some s) ∧ s.Bounded :=
  (multibootShit_stores_iff twoEntries_wellFormed 0).mpr (by decide)

/-- A memory-map tag with 129 available entries. -/
def manyEntries : BootInfo := .ofWords fun i =>
  if i < 6 then [3128, 0, 6, 3112, 24, 0].getD i 0
  else if i = 781 then 8
  else if i % 6 = 4 then 1 else 0

theorem manyEntries_wellFormed : manyEntries.WellFormed
    [(List.range 129).map fun k => manyEntries.entry (8 + 16 + k * 24)] :=
  ⟨by decide, .mmap (by decide) (by decide) (by decide) (by decide)
    (.done (by decide) (by decide) (by decide))⟩

/-- **The array can be too small**: the 129th entry is stored behind it. -/
theorem not_multibootShit_stores : ¬ ∀ (I : BootInfo) (maps : List (List MmapEntry)),
    I.WellFormed maps → ∃ n s, (∀ fuel, n ≤ fuel →
      multibootShit I multiboot2BootloaderMagic fuel (.initial 0) = some s) ∧ s.Bounded := by
  intro h
  obtain ⟨n, s, hs, hbounded⟩ := h manyEntries _ manyEntries_wellFormed
  obtain ⟨n', hn'⟩ := manyEntries_wellFormed.run
  have heq := (hs (max n n') (Nat.le_max_left n n')).symm.trans
    (hn' (max n n') (Nat.le_max_right n n') _)
  rw [Option.some.inj heq, bounded_run_iff] at hbounded
  have hcount : (availableRegions
      [(List.range 129).map fun k => manyEntries.entry (8 + 16 + k * 24)]).length = 129 := by
    decide +kernel
  rw [hcount] at hbounded
  exact absurd hbounded (by decide)

end WellFormed

end MyOs.Boot
