/-
  What the walks through a directory read, on any bytes.

  A record says itself how long it is and how long its name is, and the walks believe it.

  1. **Listings** (`listItemsLoop_isSome_iff`): a listing looks at all records, and needs room for
     their names.
  2. **Paths** (`recordWalks_inside_iff`): the directories of a path are searched one after the other,
     whatever the drive delivers.
-/
import MyOs.Drivers.IsoListing

namespace MyOs.Drivers

open MyOs.Libraries

/-! ## Listings -/

/-- The length of `item_storage`, and of each item. -/
abbrev itemCount : Nat := 256
abbrev itemSize : Nat := 255

/-- The storage that the `list` command provides. -/
structure Storage (items : List (List UInt8)) : Prop where
  count : items.length = itemCount
  size : ∀ item ∈ items, item.length = itemSize

/-- What the copy of a name looks at, up to a zero, and the room for it. -/
structure ItemInside (sector : Bytes) (entry : Nat) : Prop where
  header : HeaderInside sector entry
  name : ∀ j, j < (recordAt sector entry).base.length →
    (∀ k, k < j → sector (entry + 33 + k) ≠ 0) → entry + 33 + j < 2048
  fits : (recordAt sector entry).base.length < itemSize

/-- From an offset on: records that a listing can look at, with room for those that it stores, and a
    zero byte. -/
inductive Listable (sector : Bytes) : Nat → Nat → Prop where
  | zero {entry i : Nat} (hin : entry < 2048) (h : sector entry = 0) : Listable sector entry i
  | dot {entry i : Nat} (h : sector entry ≠ 0) (hin : entry + 33 < 2048)
      (hdot : (recordAt sector entry).isDot = true)
      (rest : Listable sector (entry + (sector entry).toNat) i) : Listable sector entry i
  | item {entry i : Nat} (h : sector entry ≠ 0) (hin : ItemInside sector entry)
      (hdot : (recordAt sector entry).isDot = false) (hi : i < itemCount)
      (rest : Listable sector (entry + (sector entry).toNat) (i + 1)) : Listable sector entry i

section Listings

variable {sector : Bytes} {entry i : Nat} {items : List (List UInt8)}

theorem Storage.item (h : Storage items) (hi : i < itemCount) :
    ∃ item, items[i]? = some item ∧ item.length = itemSize := by
  have hi' : i < items.length := h.count.symm ▸ hi
  exact ⟨_, List.getElem?_eq_getElem hi', h.size _ (List.getElem_mem hi')⟩

/-- A name is read up to a zero. -/
theorem readsName_iff {n : Nat} : (∀ j, j < n → (∀ k, k < j → entryName sector entry k ≠ some 0) →
      (entryName sector entry j).isSome) ↔
    ∀ j, j < n → (∀ k, k < j → sector (entry + 33 + k) ≠ 0) → entry + 33 + j < 2048 := by
  constructor
  · intro hread j hj hne
    refine byteAt_isSome_iff.mp (hread j hj fun k hk hzero => ?_)
    exact hne k hk (byteAt_eq_some hzero).2
  · intro hin j hj hne
    refine byteAt_isSome_iff.mpr ?_
    induction j using Nat.strongRecOn with
    | _ j ih =>
      refine hin j hj fun k hk hzero => hne k hk ?_
      have hk' := ih k hk (Nat.lt_trans hk hj) fun i hi => hne i (Nat.lt_trans hi hk)
      rw [entryName, byteAt_eq hk', hzero]

/-- One item. -/
theorem storeItem_isSome_iff (h : Storage items) :
    (storeItem sector entry items i).isSome ↔ ItemInside sector entry ∧ i < itemCount := by
  constructor
  · intro hsome
    obtain ⟨items', hitems'⟩ := Option.isSome_iff_exists.mp hsome
    unfold storeItem at hitems'
    obtain ⟨len, hlen, hitems'⟩ := Option.bind_eq_some_iff.mp hitems'
    obtain ⟨item, hitem, hitems'⟩ := Option.bind_eq_some_iff.mp hitems'
    obtain ⟨item₁, hcopy, hitems'⟩ := Option.bind_eq_some_iff.mp hitems'
    obtain ⟨item₂, hstore, -⟩ := Option.bind_eq_some_iff.mp hitems'
    have hheader := cmpLen_isSome_iff.mp (Option.isSome_iff_exists.mpr ⟨len, hlen⟩)
    obtain rfl := Option.some.inj (hlen.symm.trans hheader.cmpLen)
    have hsize := h.size item (List.mem_of_getElem? hitem)
    -- the terminator behind the name is stored, so it fits
    have hfits : (recordAt sector entry).base.length < item.length := by
      rw [← strncpy_length hcopy]
      unfold store at hstore
      split at hstore
      · assumption
      · nomatch hstore
    refine ⟨⟨hheader, readsName_iff.mp ?_, hsize ▸ hfits⟩, ?_⟩
    · exact (strncpy_isSome_iff hfits).mp (Option.isSome_iff_exists.mpr ⟨item₁, hcopy⟩)
    · rw [← h.count]
      exact (List.getElem?_eq_some_iff.mp hitem).1
  · rintro ⟨hin, hi⟩
    obtain ⟨item, hitem, hsize⟩ := h.item hi
    have hfits : (recordAt sector entry).base.length < item.length := hsize ▸ hin.fits
    obtain ⟨item₁, hcopy⟩ := Option.isSome_iff_exists.mp
      ((strncpy_isSome_iff hfits).mpr (readsName_iff.mpr hin.name))
    have hstore : store item₁ (recordAt sector entry).base.length 0
        = some (item₁.set (recordAt sector entry).base.length 0) :=
      if_pos (by rw [strncpy_length hcopy]; exact hfits)
    unfold storeItem
    simp only [hin.header.cmpLen, hitem, hcopy, hstore, Option.bind_eq_bind, Option.bind_some,
      Option.isSome_some]

/-- It keeps the storage. -/
theorem Storage.storeItem {items' : List (List UInt8)} (h : Storage items)
    (hstore : storeItem sector entry items i = some items') : Storage items' := by
  unfold Drivers.storeItem at hstore
  obtain ⟨len, -, hstore⟩ := Option.bind_eq_some_iff.mp hstore
  obtain ⟨item, hitem, hstore⟩ := Option.bind_eq_some_iff.mp hstore
  obtain ⟨item₁, hcopy, hstore⟩ := Option.bind_eq_some_iff.mp hstore
  obtain ⟨item₂, hend, hstore⟩ := Option.bind_eq_some_iff.mp hstore
  obtain rfl := Option.some.inj hstore
  refine ⟨by rw [List.length_set, h.count], fun x hx => ?_⟩
  rcases List.mem_or_eq_of_mem_set hx with hold | rfl
  · exact h.size x hold
  · rw [store_length hend, strncpy_length hcopy]
    exact h.size item (List.mem_of_getElem? hitem)

/-- A name of one character is all base name. -/
theorem ItemInside.first (h : ItemInside sector entry) (hone : (sector (entry + 32)).toNat = 1) :
    entry + 33 < 2048 := by
  have hlength : (recordAt sector entry).name.length = 1 := length_name.trans hone
  have hbase : (recordAt sector entry).base = (recordAt sector entry).name :=
    if_neg fun htwo => by omega
  exact h.name 0 (by rw [hbase, hlength]; exact Nat.zero_lt_one) fun k hk =>
    absurd hk (Nat.not_lt_zero k)

/-- A dot entry has a name of one character. -/
theorem toNat_of_isDot (h : (recordAt sector entry).isDot = true) :
    (sector (entry + 32)).toNat = 1 := by
  rw [Record.isDot, Bool.or_eq_true, decide_eq_true_eq, decide_eq_true_eq] at h
  rw [← length_name]
  rcases h with h | h
  all_goals rw [h]; rfl

theorem listable_of_listItemsLoop : ∀ {fuel entry i : Nat} {items : List (List UInt8)},
    Storage items → (listItemsLoop sector fuel entry i items).isSome → Listable sector entry i
  | fuel + 1, entry, i, items, hitems, h => by
    obtain ⟨out, hout⟩ := Option.isSome_iff_exists.mp h
    rw [listItemsLoop] at hout
    obtain ⟨length, hlength, hout⟩ := Option.bind_eq_some_iff.mp hout
    obtain ⟨hin, rfl⟩ := byteAt_eq_some hlength
    by_cases hend : sector entry = 0
    · exact .zero hin hend
    · rw [if_neg hend] at hout
      obtain ⟨dot, hdot, -⟩ := Option.bind_eq_some_iff.mp hout
      unfold isDotEntry at hdot
      obtain ⟨nameLength, hnameLength, hdot⟩ := Option.bind_eq_some_iff.mp hdot
      obtain ⟨hheader, rfl⟩ := byteAt_eq_some hnameLength
      -- the name is read only when it has one character
      have hfirst : (sector (entry + 32)).toNat = 1 → entry + 33 < 2048 := by
        intro hone
        rw [if_pos (UInt8.toNat_inj.mp hone)] at hdot
        obtain ⟨c, hc, -⟩ := Option.bind_eq_some_iff.mp hdot
        exact (byteAt_eq_some hc).1
      rw [listItemsLoop_record fuel i items hheader hfirst hend] at h
      cases hkind : (recordAt sector entry).isDot with
      | true =>
        rw [hkind, if_pos rfl] at h
        exact .dot hend (hfirst (toNat_of_isDot hkind)) hkind (listable_of_listItemsLoop hitems h)
      | false =>
        rw [hkind, if_neg Bool.false_ne_true] at h
        obtain ⟨out, hout⟩ := Option.isSome_iff_exists.mp h
        obtain ⟨items', hstore, hrest⟩ := Option.bind_eq_some_iff.mp hout
        obtain ⟨hinside, hi⟩ :=
          (storeItem_isSome_iff hitems).mp (Option.isSome_iff_exists.mpr ⟨items', hstore⟩)
        exact .item hend hinside hkind hi (listable_of_listItemsLoop (hitems.storeItem hstore)
          (Option.isSome_iff_exists.mpr ⟨out, hrest⟩))

theorem Listable.lt (h : Listable sector entry i) : entry < 2048 := by
  cases h with
  | zero hin _ => exact hin
  | dot _ hin _ _ => exact Nat.lt_of_le_of_lt (Nat.le_add_right _ 33) hin
  | item _ hin _ _ _ => exact Nat.lt_of_le_of_lt (Nat.le_add_right _ 32) hin.header.length

/-- A listing that can look at the records, and has room for them, has a result. -/
theorem Listable.listItemsLoop (h : Listable sector entry i) :
    ∀ (fuel : Nat) (items : List (List UInt8)), 2048 < entry + fuel → Storage items →
    (listItemsLoop sector fuel entry i items).isSome := by
  induction h with
  | zero hin hend =>
    intro fuel items hfuel _
    obtain ⟨fuel, rfl⟩ : ∃ n, fuel = n + 1 := ⟨fuel - 1, by omega⟩
    rw [Drivers.listItemsLoop, byteAt_eq hin]
    simp only [Option.bind_eq_bind, Option.bind_some, if_pos hend]
    rfl
  | dot hne hin hdot rest ih =>
    intro fuel items hfuel hitems
    have hpos := toNat_pos hne
    obtain ⟨fuel, rfl⟩ : ∃ n, fuel = n + 1 := ⟨fuel - 1, by omega⟩
    rw [listItemsLoop_record fuel _ items (by omega) (fun _ => hin) hne, if_pos hdot]
    exact ih fuel items (by omega) hitems
  | item hne hin hdot hi rest ih =>
    intro fuel items hfuel hitems
    have hpos := toNat_pos hne
    have hlt := hin.header.length
    obtain ⟨fuel, rfl⟩ : ∃ n, fuel = n + 1 := ⟨fuel - 1, by omega⟩
    obtain ⟨items', hstore⟩ :=
      Option.isSome_iff_exists.mp ((storeItem_isSome_iff hitems).mpr ⟨hin, hi⟩)
    rw [listItemsLoop_record fuel _ items hlt hin.first hne, hdot, if_neg Bool.false_ne_true, hstore]
    exact ih fuel items' (by omega) (hitems.storeItem hstore)

/-- **When a listing stays inside the sector and the storage**. -/
theorem listItemsLoop_isSome_iff (h : Storage items) :
    (listItemsLoop sector 2049 0 0 items).isSome ↔ Listable sector 0 0 :=
  ⟨listable_of_listItemsLoop h, fun hlistable => hlistable.listItemsLoop 2049 items (by decide) h⟩

end Listings

/-! ## Paths -/

/-- The walk of `get_lba_file`, behind the split of the path. -/
def getLbaFileWalk (d : Drive) (path : List (List UInt8)) (last : List UInt8) (call : Nat)
    (lba : UInt32) (buffer : Bytes) : Option (IsoFile × Nat) := do
  let (lba, call, buffer) ← getLbaFilePath d path call lba buffer
  getLbaFileEntry d last call lba buffer

/-- The walk of `list_items`. -/
def listItemsWalk (d : Drive) (path : List (List UInt8)) (items : List (List UInt8)) (call : Nat)
    (lba : UInt32) (buffer : Bytes) : Option (Int × List (List UInt8)) := do
  let found ← listItemsPath d path call lba buffer
  listItemsEntries d items found

/-- They are what the functions end with. -/
theorem getLbaFile_eq_walk (d : Drive) (s : Stack) (name : List UInt8) : getLbaFile d s name = (do
    let (filename, path) ← splitPath s.filename.1 name
    let lastItem ← path.getLast?
    let last ← strncpy s.last.1 ((pathItem filename lastItem)[·]?) 255
    let rootLba ← entryLba (d.atapiRead 0 pvdSector 1 s.pvd).2 rootDirRecord
    getLbaFileWalk d (path.dropLast.map (pathItem filename)) last 2 rootLba
      (d.atapiRead 1 rootLba 1 s.buffer).2) := rfl

theorem listItems_eq_walk (d : Drive) (s : Stack) (dir : List UInt8) (items : List (List UInt8)) :
    listItems d s dir items = (do
      let (filename, path) ← splitPath s.filename.1 dir
      let rootLba ← entryLba (d.atapiRead 0 pvdSector 1 s.pvd).2 rootDirRecord
      listItemsWalk d (path.map (pathItem filename)) items 2 rootLba
        (d.atapiRead 1 rootLba 1 s.buffer).2) := rfl

/-- The directory that a sector has under a name. -/
def entered (sector : Bytes) (c : List UInt8) : Option UInt32 :=
  ((records sector).find? (Record.isMatch true c)).map Record.lba

/-- The sectors on the way of `get_lba_file` can be searched, for the parts of the path and for the
    file behind them. -/
def WalkSearchable (d : Drive) (file : List UInt8) :
    List (List UInt8) → Nat → UInt32 → Bytes → Prop
  | [], call, lba, buffer => Searchable false (d.atapiRead call lba 1 buffer).2 file 0
  | c :: comps, call, lba, buffer =>
    Searchable true (d.atapiRead call lba 1 buffer).2 c 0 ∧
      WalkSearchable d file comps (call + 1)
        ((entered (d.atapiRead call lba 1 buffer).2 c).getD lba) (d.atapiRead call lba 1 buffer).2

/-- The sectors on the way of `list_items` can be searched, as far as it goes, and the last one can
    be listed. -/
def WalkListable (d : Drive) : List (List UInt8) → Nat → UInt32 → Bytes → Prop
  | [], call, lba, buffer => Listable (d.atapiRead call lba 1 buffer).2 0 0
  | c :: comps, call, lba, buffer =>
    Searchable true (d.atapiRead call lba 1 buffer).2 c 0 ∧
      ∀ lba', entered (d.atapiRead call lba 1 buffer).2 c = some lba' →
        WalkListable d comps (call + 1) lba' (d.atapiRead call lba 1 buffer).2

section Paths

variable {d : Drive}

section Steps

variable {c : List UInt8} (hc : 0 ∉ c) (rest : List UInt8) (path : List (List UInt8)) {call : Nat}
  {lba : UInt32} {buffer : Bytes}

include hc

/-- What a search finds can be read. -/
theorem found_inside {directory : Bool} {sector : Bytes} {found : Option Nat}
    (h : search directory sector (c ++ 0 :: rest) = some found) :
    ∀ e, found = some e → e + 33 ≤ 2048 := by
  have hsearchable := (search_isSome_iff rest hc).mp (Option.isSome_iff_exists.mpr ⟨_, h⟩)
  obtain ⟨found', hfound', hin⟩ := hsearchable.searchLoop rest hc 2049 (by decide)
  obtain rfl := Option.some.inj (h.symm.trans hfound')
  exact hin

/-- A search that has a result can read the directory that it enters. -/
theorem entered_of_search {sector : Bytes} {found : Option Nat}
    (h : search true sector (c ++ 0 :: rest) = some found) :
    found = none ∧ entered sector c = none ∨
      ∃ e lba, found = some e ∧ entered sector c = some lba ∧ entryLba sector e = some lba := by
  have hin := found_inside hc rest h
  have hentered : entered sector c = (found.map (recordAt sector)).map Record.lba := by
    rw [search_eq_some hc h]
    rfl
  cases found with
  | none => exact .inl ⟨rfl, hentered⟩
  | some e => exact .inr ⟨e, _, rfl, hentered, entryLba_eq (hin e rfl)⟩

/-- One directory of `get_lba_file`. -/
theorem getLbaFilePath_cons : getLbaFilePath d ((c ++ 0 :: rest) :: path) call lba buffer
      = (search true (d.atapiRead call lba 1 buffer).2 (c ++ 0 :: rest)).bind fun _ =>
        getLbaFilePath d path (call + 1) ((entered (d.atapiRead call lba 1 buffer).2 c).getD lba)
          (d.atapiRead call lba 1 buffer).2 := by
  rw [getLbaFilePath]
  cases hsearch : search true (d.atapiRead call lba 1 buffer).2 (c ++ 0 :: rest) with
  | none => rfl
  | some found =>
    rcases entered_of_search hc rest hsearch with ⟨rfl, hentered⟩ | ⟨e, lba', rfl, hentered, hlba⟩
    · rw [hentered]
      rfl
    · simp only [Option.bind_eq_bind, Option.bind_some, hlba, hentered]
      rfl

/-- One directory of `list_items`. -/
theorem listItemsPath_cons : listItemsPath d ((c ++ 0 :: rest) :: path) call lba buffer
      = (search true (d.atapiRead call lba 1 buffer).2 (c ++ 0 :: rest)).bind fun _ =>
        (entered (d.atapiRead call lba 1 buffer).2 c).elim (some none) fun lba' =>
          listItemsPath d path (call + 1) lba' (d.atapiRead call lba 1 buffer).2 := by
  rw [listItemsPath]
  cases hsearch : search true (d.atapiRead call lba 1 buffer).2 (c ++ 0 :: rest) with
  | none => rfl
  | some found =>
    rcases entered_of_search hc rest hsearch with ⟨rfl, hentered⟩ | ⟨e, lba', rfl, hentered, hlba⟩
    · rw [hentered]
      rfl
    · simp only [Option.bind_eq_bind, Option.bind_some, hlba, hentered, Option.elim_some]

end Steps

variable {path comps : List (List UInt8)} (hpath : List.Forall₂ Holds path comps)

include hpath

/-- **The walk of `get_lba_file`** stays inside the sectors when they can be searched. -/
theorem getLbaFileWalk_isSome_iff {last file : List UInt8} (hlast : Holds last file) :
    ∀ (call : Nat) (lba : UInt32) (buffer : Bytes),
    (getLbaFileWalk d path last call lba buffer).isSome ↔
      WalkSearchable d file comps call lba buffer := by
  obtain ⟨hfile, rest, rfl⟩ := hlast
  induction hpath with
  | nil =>
    intro call lba buffer
    rw [WalkSearchable, ← search_isSome_iff rest hfile]
    show (getLbaFileEntry d (file ++ 0 :: rest) call lba buffer).isSome ↔ _
    unfold getLbaFileEntry
    dsimp only
    cases hsearch : search false (d.atapiRead call lba 1 buffer).2 (file ++ 0 :: rest) with
    | none => exact Iff.rfl
    | some found =>
      -- the fields of the record that was found are inside, as its name is
      have hin := found_inside hfile rest hsearch
      refine iff_of_true ?_ rfl
      cases found with
      | none => rfl
      | some e =>
        simp only [Option.bind_eq_bind, Option.bind_some, entryLba_eq (hin e rfl),
          entrySize_eq (hin e rfl), Option.isSome_some]
  | @cons a c path comps ha hpath ih =>
    intro call lba buffer
    obtain ⟨hc, rest', rfl⟩ := ha
    rw [WalkSearchable, ← search_isSome_iff rest' hc, ← ih]
    unfold getLbaFileWalk
    rw [getLbaFilePath_cons hc]
    cases search true (d.atapiRead call lba 1 buffer).2 (c ++ 0 :: rest') with
    | none => exact iff_of_false Bool.false_ne_true fun h => Bool.false_ne_true h.1
    | some found => exact (and_iff_right rfl).symm

/-- **The walk of `list_items`** does, when the last one can be listed too. -/
theorem listItemsWalk_isSome_iff {items : List (List UInt8)} (hitems : Storage items) :
    ∀ (call : Nat) (lba : UInt32) (buffer : Bytes),
    (listItemsWalk d path items call lba buffer).isSome ↔
      WalkListable d comps call lba buffer := by
  induction hpath with
  | nil =>
    intro call lba buffer
    rw [WalkListable, ← listItemsLoop_isSome_iff hitems]
    show ((listItemsLoop (d.atapiRead call lba 1 buffer).2 2049 0 0 items).bind _).isSome ↔ _
    cases listItemsLoop (d.atapiRead call lba 1 buffer).2 2049 0 0 items <;> rfl
  | @cons a c path comps ha hpath ih =>
    intro call lba buffer
    obtain ⟨hc, rest', rfl⟩ := ha
    rw [WalkListable, ← search_isSome_iff rest' hc]
    unfold listItemsWalk
    rw [listItemsPath_cons hc]
    cases search true (d.atapiRead call lba 1 buffer).2 (c ++ 0 :: rest') with
    | none => exact iff_of_false Bool.false_ne_true fun h => Bool.false_ne_true h.1
    | some found =>
      rw [Option.isSome_some, and_iff_right rfl, Option.bind_some]
      cases entered (d.atapiRead call lba 1 buffer).2 c with
      | none => exact iff_of_true rfl fun lba' h => nomatch h
      | some lba' =>
        simp only [Option.elim_some, Option.some.injEq, forall_eq']
        exact ih (call + 1) lba' (d.atapiRead call lba 1 buffer).2

/-- **Which walks stay inside the sectors and the storage**, for every path, on every drive and with
    every content of the buffers. -/
theorem recordWalks_inside_iff {last file : List UInt8} (hlast : Holds last file)
    {items : List (List UInt8)} (hitems : Storage items) (call : Nat) (lba : UInt32)
    (buffer : Bytes) :
    ((getLbaFileWalk d path last call lba buffer).isSome ↔
      WalkSearchable d file comps call lba buffer) ∧
    ((listItemsWalk d path items call lba buffer).isSome ↔
      WalkListable d comps call lba buffer) :=
  ⟨getLbaFileWalk_isSome_iff hpath hlast call lba buffer,
    listItemsWalk_isSome_iff hpath hitems call lba buffer⟩

end Paths

/-- The storage of the command, cleared. -/
def clearItems : List (List UInt8) := List.replicate itemCount (List.replicate itemSize 0)

theorem clearItems_storage : Storage clearItems :=
  ⟨List.length_replicate, fun _ hitem => by rw [List.eq_of_mem_replicate hitem, List.length_replicate]⟩

/-- The walks to `SUB`. -/
theorem recordWalks_inside_iff_sub :
    WalkSearchable (flawless twoDirectories) (bytes "F") [bytes "SUB"] 2 20 (fun _ => 0) ∧
    WalkListable (flawless twoDirectories) [bytes "SUB"] 2 20 (fun _ => 0) := by
  have hsub : Holds (bytes "SUB" ++ [0]) (bytes "SUB") := ⟨by decide +kernel, [], rfl⟩
  have hfile : Holds (bytes "F" ++ [0]) (bytes "F") := ⟨by decide +kernel, [], rfl⟩
  obtain ⟨hsearch, hlist⟩ := recordWalks_inside_iff (d := flawless twoDirectories)
    (.cons hsub .nil) hfile clearItems_storage 2 20 fun _ => 0
  exact ⟨hsearch.mp (by decide +kernel), hlist.mp (by decide +kernel)⟩

/-- An image whose root directory fills its sector to the last byte, with nine records. -/
def fullDirectory : Bytes :=
  discOf ⟨20, 2048, true, [0]⟩
    [(20, List.replicate 8 ⟨30, 9, false, List.replicate 195 'F'.toUInt8⟩ ++
      [⟨30, 9, false, List.replicate 191 'F'.toUInt8⟩])]

/-- **No walk is safe from a full sector**: no zero byte follows its records. -/
theorem not_recordWalks_inside : ¬ ∀ (d : Drive) (path comps : List (List UInt8))
    (last file : List UInt8) (items : List (List UInt8)) (call : Nat) (lba : UInt32)
    (buffer : Bytes), List.Forall₂ Holds path comps → Holds last file → Storage items →
    (getLbaFileWalk d path last call lba buffer).isSome ∧
      (listItemsWalk d path items call lba buffer).isSome := by
  intro h
  have hwalk := h (flawless fullDirectory) [] [] (bytes "G" ++ [0]) (bytes "G") clearItems 2 20
    (fun _ => 0) .nil ⟨by decide +kernel, [], rfl⟩ clearItems_storage
  have houtside : (getLbaFileWalk (flawless fullDirectory) [] (bytes "G" ++ [0]) 2 20
      fun _ => 0).isSome = false := by decide +kernel
  rw [houtside] at hwalk
  exact Bool.false_ne_true hwalk.1

end MyOs.Drivers
