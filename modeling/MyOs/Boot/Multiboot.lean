/-
  `multiboot_shit`: what the boot loader says about memory.

  1. **Program**: `multibootShit` walks through the tags of the boot information, and in memory-map
     tags through the entries.  A read outside the announced size has no result, and neither has a
     walk that runs out of its fuel.
  2. **What the tags list** (`Tags`): the regions of the available entries, tag by tag, as far as
     the sizes in the data lead to an end tag.
  3. **Exactness** (`multibootShit_iff`): the walk ends, inside the announced size, exactly when they
     do.  Nothing in the code sees to it: the announced size is read and not used.
-/
import MyOs.Link
import MyOs.Paging.Setup

namespace MyOs.Boot

open MyOs.Paging

/-! ## Reading -/

/-- Memory as `multiboot_shit` sees it, and its argument `mb2_addr`. -/
structure BootInfo where
  memory : UInt32 → UInt8
  mb2Addr : UInt32

namespace BootInfo

variable (I : BootInfo)

/-- Where the boot information begins. -/
def start : UInt32 := I.mb2Addr + kernelOffset

/-- The 32-bit word at an address, the lowest byte first. -/
def word (p : UInt32) : UInt32 :=
  (I.memory p).toUInt32 ||| (I.memory (p + 1)).toUInt32 <<< 8
    ||| (I.memory (p + 2)).toUInt32 <<< 16 ||| (I.memory (p + 3)).toUInt32 <<< 24

/-- `size`: the announced size. -/
def size : UInt32 := I.word I.start

/-- An address inside the announced size. -/
def Inside (p : UInt32) : Prop := p - I.start < I.size

instance (p : UInt32) : Decidable (I.Inside p) := inferInstanceAs (Decidable (_ < _))

/-- A 32-bit field. -/
def read32 (p : UInt32) : Option UInt32 :=
  if I.Inside p ∧ I.Inside (p + 1) ∧ I.Inside (p + 2) ∧ I.Inside (p + 3) then some (I.word p)
  else none

/-- A 64-bit field. -/
def read64 (p : UInt32) : Option UInt64 := do
  let lo ← I.read32 p
  let hi ← I.read32 (p + 4)
  some (lo.toUInt64 ||| hi.toUInt64 <<< 32)

end BootInfo

/-! ## The program -/

/-- `MULTIBOOT2_BOOTLOADER_MAGIC`. -/
def multiboot2BootloaderMagic : UInt32 := 0x36d76289

/-- `MULTIBOOT_TAG_TYPE_END`. -/
def tagTypeEnd : UInt32 := 0

/-- `MULTIBOOT_TAG_TYPE_MMAP`. -/
def tagTypeMmap : UInt32 := 6

/-- `MULTIBOOT_MEMORY_AVAILABLE`. -/
def memoryAvailable : UInt32 := 1

/-- `free_regions[0 .. free_region_count)`, `max_addr` and `total_pages`, and the indices of the
    stores to `free_regions`.  The array has 128 elements, and the code does not look at that. -/
structure BootMap where
  regions : List MemRegion
  stores : List Nat
  maxAddr : UInt64
  totalPages : UInt32

namespace BootMap

/-- `free_regions[free_region_count].base = ...; free_regions[free_region_count++].length = ...` -/
def push (s : BootMap) (r : MemRegion) : BootMap :=
  { s with regions := s.regions ++ [r], stores := s.stores ++ [s.regions.length] }

/-- `if (end_addr > max_addr) max_addr = end_addr;` -/
def largerEnd (maxAddr : UInt64) (r : MemRegion) : UInt64 :=
  let endAddr := r.base + r.length
  if endAddr > maxAddr then endAddr else maxAddr

/-- The block behind the entries of a memory-map tag. -/
def measure (s : BootMap) : BootMap :=
  let maxAddr := s.regions.foldl largerEnd s.maxAddr
  { s with maxAddr := maxAddr, totalPages := (maxAddr / 4096).toUInt32 }

end BootMap

section Program

variable (I : BootInfo)

/-- The body of the loop over the entries. -/
def mmapEntry (mmap : UInt32) (s : BootMap) : Option BootMap := do
  let type ← I.read32 (mmap + 16)
  if type = memoryAvailable then do
    let addr ← I.read64 mmap
    let len ← I.read64 (mmap + 8)
    some (s.push ⟨addr, len⟩)
  else some s

/-- The loop over the entries of a memory-map tag. -/
def mmapLoop (tag : UInt32) : Nat → UInt32 → BootMap → Option BootMap
  | 0, _, _ => none
  | fuel + 1, mmap, s => do
    let size ← I.read32 (tag + 4)
    if mmap < tag + size then do
      let s ← mmapEntry I mmap s
      let entrySize ← I.read32 (tag + 8)
      mmapLoop tag fuel (mmap + entrySize) s
    else some s

/-- `switch (tag->type)`. -/
def tagBody (fuel : Nat) (tag type : UInt32) (s : BootMap) : Option BootMap :=
  if type = tagTypeMmap then do
    let s ← mmapLoop I tag fuel (tag + 16) s
    some s.measure
  else some s

/-- `(multiboot_uint8_t *) tag + ((tag->size + 7) & ~7)`. -/
def nextTag (tag size : UInt32) : UInt32 := tag + ((size + 7) &&& ~~~7)

/-- The loop over the tags. -/
def tagLoop (entryFuel : Nat) : Nat → UInt32 → BootMap → Option BootMap
  | 0, _, _ => none
  | fuel + 1, tag, s => do
    let type ← I.read32 tag
    if type = tagTypeEnd then some s
    else do
      let s ← tagBody I entryFuel tag type s
      let size ← I.read32 (tag + 4)
      tagLoop entryFuel fuel (nextTag tag size) s

/-- `multiboot_shit`, which never returns when the magic number is wrong. -/
def multibootShit (magic : UInt32) (fuel : Nat) (s : BootMap) : Option BootMap :=
  if magic ≠ multiboot2BootloaderMagic then none
  else tagLoop I fuel fuel (I.start + 8) s

end Program

/-! ## What the tags list -/

/-- The regions of an entry: one, if it is available. -/
def entryRegions (I : BootInfo) (mmap : UInt32) : Option (List MemRegion) := do
  let type ← I.read32 (mmap + 16)
  if type = memoryAvailable then do
    let addr ← I.read64 mmap
    let len ← I.read64 (mmap + 8)
    some [⟨addr, len⟩]
  else some []

/-- The entries of a tag from `mmap` on, an entry size apart, up to the tag's end. -/
inductive Entries (I : BootInfo) (tag size : UInt32) : UInt32 → List MemRegion → Prop where
  | done {mmap : UInt32} (hend : ¬ mmap < tag + size) : Entries I tag size mmap []
  | entry {mmap entrySize : UInt32} {r rs : List MemRegion} (hin : mmap < tag + size)
      (hentry : entryRegions I mmap = some r) (hsize : I.read32 (tag + 8) = some entrySize)
      (rest : Entries I tag size (mmap + entrySize) rs) : Entries I tag size mmap (r ++ rs)

/-- The tags from `tag` on, a rounded tag size apart, up to an end tag, and the regions that each
    memory-map tag lists. -/
inductive Tags (I : BootInfo) : UInt32 → List (List MemRegion) → Prop where
  | done {tag : UInt32} (htype : I.read32 tag = some tagTypeEnd) : Tags I tag []
  | mmap {tag size : UInt32} {rs : List MemRegion} {maps : List (List MemRegion)}
      (htype : I.read32 tag = some tagTypeMmap) (hsize : I.read32 (tag + 4) = some size)
      (hentries : Entries I tag size (tag + 16) rs) (rest : Tags I (nextTag tag size) maps) :
      Tags I tag (rs :: maps)
  | other {tag type size : UInt32} {maps : List (List MemRegion)}
      (htype : I.read32 tag = some type) (hend : type ≠ tagTypeEnd) (hmmap : type ≠ tagTypeMmap)
      (hsize : I.read32 (tag + 4) = some size) (rest : Tags I (nextTag tag size) maps) :
      Tags I tag maps

/-- The state behind the entries of a tag. -/
def BootMap.pushAll (s : BootMap) (rs : List MemRegion) : BootMap := rs.foldl BootMap.push s

/-- The state behind memory-map tags. -/
def BootMap.afterMaps (s : BootMap) (maps : List (List MemRegion)) : BootMap :=
  maps.foldl (fun s rs => (s.pushAll rs).measure) s

theorem BootMap.pushAll_append (s : BootMap) (rs rs' : List MemRegion) :
    s.pushAll (rs ++ rs') = (s.pushAll rs).pushAll rs' := List.foldl_append

/-! ## Exactness -/

section Exactness

variable {I : BootInfo} {tag mmap size : UInt32}

theorem mmapEntry_eq (I : BootInfo) (mmap : UInt32) (s : BootMap) :
    mmapEntry I mmap s = (entryRegions I mmap).map s.pushAll := by
  unfold mmapEntry entryRegions
  cases I.read32 (mmap + 16) with
  | none => rfl
  | some type =>
    simp only [Option.bind_eq_bind, Option.bind_some]
    split
    · cases I.read64 mmap with
      | none => rfl
      | some addr =>
        cases I.read64 (mmap + 8) with
        | none => rfl
        | some len => rfl
    · rfl

/-- One turn of the loop over the entries. -/
theorem mmapLoop_succ (hsize : I.read32 (tag + 4) = some size) (fuel : Nat) (mmap : UInt32)
    (s : BootMap) : mmapLoop I tag (fuel + 1) mmap s
      = if mmap < tag + size then
          (entryRegions I mmap).bind fun r =>
            (I.read32 (tag + 8)).bind fun entrySize =>
              mmapLoop I tag fuel (mmap + entrySize) (s.pushAll r)
        else some s := by
  rw [mmapLoop, hsize]
  show (if mmap < tag + size then (mmapEntry I mmap s).bind _ else some s) = _
  rw [mmapEntry_eq, Option.bind_map]
  rfl

theorem mmapLoop_eq_some (hsize : I.read32 (tag + 4) = some size) :
    ∀ {fuel : Nat} {mmap : UInt32} {s s' : BootMap}, mmapLoop I tag fuel mmap s = some s' →
      ∃ rs, Entries I tag size mmap rs ∧ s' = s.pushAll rs := by
  intro fuel
  induction fuel with
  | zero => intro mmap s s' h; nomatch h
  | succ fuel ih =>
    intro mmap s s' h
    rw [mmapLoop_succ hsize] at h
    split_ifs at h with hin
    · obtain ⟨r, hentry, h⟩ := Option.bind_eq_some_iff.mp h
      obtain ⟨entrySize, hentrySize, h⟩ := Option.bind_eq_some_iff.mp h
      obtain ⟨rs, hrest, rfl⟩ := ih h
      exact ⟨r ++ rs, .entry hin hentry hentrySize hrest, (s.pushAll_append r rs).symm⟩
    · exact ⟨[], .done hin, (Option.some.inj h).symm⟩

theorem Entries.run (hsize : I.read32 (tag + 4) = some size) {rs : List MemRegion}
    (h : Entries I tag size mmap rs) :
    ∃ n, ∀ fuel, n ≤ fuel → ∀ s, mmapLoop I tag fuel mmap s = some (s.pushAll rs) := by
  induction h with
  | done hend =>
    refine ⟨1, fun fuel hfuel s => ?_⟩
    obtain ⟨fuel, rfl⟩ := Nat.exists_eq_add_of_le' hfuel
    rw [mmapLoop_succ hsize, if_neg hend]
    rfl
  | @entry mmap entrySize r rs hin hentry hentrySize _ ih =>
    obtain ⟨n, hn⟩ := ih
    refine ⟨n + 1, fun fuel hfuel s => ?_⟩
    obtain ⟨fuel, rfl⟩ := Nat.exists_eq_add_of_le' (Nat.le_of_add_left_le hfuel)
    rw [mmapLoop_succ hsize, if_pos hin, hentry, hentrySize, Option.bind_some, Option.bind_some,
      hn fuel (Nat.le_of_succ_le_succ hfuel), BootMap.pushAll_append]

/-- One turn of the loop over the tags. -/
theorem tagLoop_succ (entryFuel fuel : Nat) (tag : UInt32) (s : BootMap) :
    tagLoop I entryFuel (fuel + 1) tag s = (I.read32 tag).bind fun type =>
      if type = tagTypeEnd then some s
      else (tagBody I entryFuel tag type s).bind fun s =>
        (I.read32 (tag + 4)).bind fun size => tagLoop I entryFuel fuel (nextTag tag size) s := rfl

theorem tagLoop_eq_some {entryFuel : Nat} : ∀ {fuel : Nat} {tag : UInt32} {s s' : BootMap},
    tagLoop I entryFuel fuel tag s = some s' →
      ∃ maps, Tags I tag maps ∧ s' = s.afterMaps maps := by
  intro fuel
  induction fuel with
  | zero => intro tag s s' h; nomatch h
  | succ fuel ih =>
    intro tag s s' h
    rw [tagLoop_succ] at h
    obtain ⟨type, htype, h⟩ := Option.bind_eq_some_iff.mp h
    split_ifs at h with hend
    · rw [hend] at htype
      exact ⟨[], .done htype, (Option.some.inj h).symm⟩
    · obtain ⟨s₁, hbody, h⟩ := Option.bind_eq_some_iff.mp h
      obtain ⟨size, hsize, h⟩ := Option.bind_eq_some_iff.mp h
      obtain ⟨maps, hrest, rfl⟩ := ih h
      unfold tagBody at hbody
      split_ifs at hbody with hmmap
      · rw [hmmap] at htype
        obtain ⟨s₂, hloop, hmeasure⟩ := Option.bind_eq_some_iff.mp hbody
        obtain ⟨rs, hentries, rfl⟩ := mmapLoop_eq_some hsize hloop
        obtain rfl := Option.some.inj hmeasure
        exact ⟨rs :: maps, .mmap htype hsize hentries hrest, rfl⟩
      · obtain rfl := Option.some.inj hbody
        exact ⟨maps, .other htype hend hmmap hsize hrest, rfl⟩

theorem Tags.run {maps : List (List MemRegion)} (h : Tags I tag maps) :
    ∃ n, ∀ entryFuel fuel, n ≤ entryFuel → n ≤ fuel → ∀ s,
      tagLoop I entryFuel fuel tag s = some (s.afterMaps maps) := by
  induction h with
  | done htype =>
    refine ⟨1, fun entryFuel fuel _ hfuel s => ?_⟩
    obtain ⟨fuel, rfl⟩ := Nat.exists_eq_add_of_le' hfuel
    rw [tagLoop_succ, htype, Option.bind_some, if_pos rfl]
    rfl
  | mmap htype hsize hentries _ ih =>
    obtain ⟨n, hn⟩ := ih
    obtain ⟨n', hn'⟩ := hentries.run hsize
    refine ⟨max n n' + 1, fun entryFuel fuel hentry hfuel s => ?_⟩
    obtain ⟨fuel, rfl⟩ := Nat.exists_eq_add_of_le' (Nat.le_of_add_left_le hfuel)
    rw [tagLoop_succ, htype, Option.bind_some, if_neg (by decide), tagBody, if_pos rfl,
      hn' entryFuel (by omega) s, hsize]
    exact hn entryFuel fuel (by omega) (by omega) _
  | other htype hend hmmap hsize _ ih =>
    obtain ⟨n, hn⟩ := ih
    refine ⟨n + 1, fun entryFuel fuel hentry hfuel s => ?_⟩
    obtain ⟨fuel, rfl⟩ := Nat.exists_eq_add_of_le' (Nat.le_of_add_left_le hfuel)
    rw [tagLoop_succ, htype, Option.bind_some, if_neg hend, tagBody, if_neg hmmap, hsize]
    exact hn entryFuel fuel (by omega) (by omega) s

/-- **When the walk ends inside the announced size**: exactly when the tags lead to an end tag there,
    and the entries of each memory-map tag to the tag's end. -/
theorem multibootShit_iff (I : BootInfo) (s : BootMap) :
    (∃ fuel s', multibootShit I multiboot2BootloaderMagic fuel s = some s') ↔
      ∃ maps, Tags I (I.start + 8) maps := by
  constructor
  · rintro ⟨fuel, s', h⟩
    rw [multibootShit, if_neg (not_not.mpr rfl)] at h
    obtain ⟨maps, htags, -⟩ := tagLoop_eq_some h
    exact ⟨maps, htags⟩
  · rintro ⟨maps, htags⟩
    obtain ⟨n, hn⟩ := htags.run
    refine ⟨n, s.afterMaps maps, ?_⟩
    rw [multibootShit, if_neg (not_not.mpr rfl)]
    exact hn n n (Nat.le_refl n) (Nat.le_refl n) s

end Exactness

/-- A tag of size zero, in an announced size of 24 bytes. -/
def zeroTag : BootInfo where
  memory p := if p = 0xC0010000 then 24 else if p = 0xC0010008 then 1 else 0
  mb2Addr := 0x10000

/-- **The walk can go on forever**: behind a tag of size zero comes the same tag. -/
theorem not_multibootShit_ends : ¬ ∀ (I : BootInfo) (s : BootMap), ∃ fuel s',
    multibootShit I multiboot2BootloaderMagic fuel s = some s' := by
  intro h
  obtain ⟨fuel, s', hrun⟩ := h zeroTag ⟨[], [], 0, 0⟩
  rw [multibootShit, if_neg (not_not.mpr rfl)] at hrun
  have htype : zeroTag.read32 0xC0010008 = some 1 := by decide
  have hsize : zeroTag.read32 0xC001000C = some 0 := by decide
  have hforever : ∀ entryFuel fuel s, tagLoop zeroTag entryFuel fuel 0xC0010008 s = none := by
    intro entryFuel fuel
    induction fuel with
    | zero => exact fun _ => rfl
    | succ fuel ih =>
      intro s
      rw [tagLoop_succ, htype, Option.bind_some, if_neg (by decide), tagBody, if_neg (by decide),
        Option.bind_some, show (0xC0010008 + 4 : UInt32) = 0xC001000C by decide, hsize,
        Option.bind_some]
      exact ih s
  nomatch (hforever fuel fuel _).symm.trans hrun

end MyOs.Boot
